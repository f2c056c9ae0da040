import PreparedSql.Number.Reading
import PreparedSql.Text.Hex
import PreparedSql.Text.Quoted
import PreparedSql.Text.Basic

/-!
# Authorities

What stands in a URL between `://` and the path: perhaps a user and an at sign, the host, and
perhaps a colon and a port. The host is an IPv6 address in brackets or a name.

* `authorityFault?` is the first fault of an authority: its host before its port, and the absence of
  a host where a user or a port needs one.
-/

namespace PreparedSql

/-- What may be wrong with a URL. -/
inductive UrlFault where
  | noHost
  | hostCharacter
  | address
  | port
  | scheme (name : String)
deriving DecidableEq, Repr

/-- What is said about a fault. -/
def UrlFault.message : UrlFault → String
  | .noHost => "empty host"
  | .hostCharacter => "invalid domain character"
  | .address => "invalid IPv6 address"
  | .port => "invalid port number"
  | .scheme name => s!"no driver found for URL scheme {quote}{name}{quote}"
where
  quote := "\""

/-! ### Addresses -/

/-- A number of eight bits, without a zero in front. -/
def isOctet (cs : List Char) : Bool :=
  isNumeral cs && digitsValue cs < 2 ^ 8 && (cs.length = 1 || cs.head? ≠ some '0')

/-- Four numbers of eight bits with points between them. -/
def isIpv4 (cs : List Char) : Bool :=
  let parts := splitAtEach '.' cs
  parts.length = 4 && parts.all isOctet

/-- One to four hexadecimal digits. -/
def isGroup (cs : List Char) : Bool :=
  !cs.isEmpty && cs.length ≤ 4 && cs.all fun c => (hexValue? c).isSome

/-- How many groups of sixteen bits a text with colons writes; the last two may be an IPv4 address
where `last`. -/
def groupCount? (last : Bool) (cs : List Char) : Option Nat :=
  let parts := if cs.isEmpty then [] else splitAtEach ':' cs
  if parts.all isGroup then some parts.length
  else if last && parts.dropLast.all isGroup && (parts.getLast?.map isIpv4).getD false then
    some (parts.length + 1)
  else none

/-- Eight groups, or fewer with one `::` in place of those that are missing. -/
def isIpv6 (cs : List Char) : Bool :=
  match cutAt? [':', ':'] cs with
  | none => groupCount? true cs = some 8
  | some (before, after) =>
    match groupCount? false before, groupCount? true after with
    | some m, some n => m + n ≤ 7
    | _, _ => false

/-! ### Hosts and ports -/

/-- The characters that a name of a host cannot have. -/
def hostDelimiters : List Char :=
  ['\x00', '\t', '\n', '\r', ' ', '#', '/', ':', '<', '>', '?', '@', '[', '\\', ']', '^', '|']

/-- The fault of a host: in brackets it must be an address, and else a name, perhaps an empty
one. -/
def hostFault? (host : List Char) : Option UrlFault :=
  if host.head? = some '[' then
    match betweenBrackets? host with
    | some address => if isIpv6 address then none else some .address
    | none => some .address
  else if host.any hostDelimiters.contains then some .hostCharacter
  else none

/-- A port: nothing, or a number of sixteen bits. A backslash ends it. -/
def isPort (cs : List Char) : Bool :=
  let ds := cs.takeWhile (· ≠ '\\')
  ds.all Char.isDigit && digitsValue ds < 2 ^ 16

/-- The text up to the first colon outside brackets, and from there on. -/
def splitHost : (bracketed : Bool) → List Char → List Char × List Char
  | _, [] => ([], [])
  | bracketed, c :: cs =>
    if c = ':' ∧ ¬ bracketed then ([], c :: cs)
    else
      let (host, rest) := splitHost (c = '[' || (bracketed && c ≠ ']')) cs
      (c :: host, rest)

/-- The fault of a host, perhaps with a port; a port needs a host. -/
def hostAndPortFault? (cs : List Char) : Option UrlFault :=
  let (host, rest) := splitHost false cs
  match hostFault? host, rest with
  | some fault, _ => some fault
  | none, _ :: port =>
    if host.isEmpty then some .noHost else if isPort port then none else some .port
  | none, [] => none

/-! ### Authorities -/

/-- The text in front of the last at sign, if there is one, and behind it. -/
def splitUser (cs : List Char) : Option (List Char) × List Char :=
  let parts := splitAtEach '@' cs
  (if parts.length = 1 then none else some (joinWith ['@'] parts.dropLast), parts.getLastD [])

/-- The fault of an authority, where `more` follows it. A user needs a host, and so does an at sign
with nothing around it if something follows. -/
def authorityFault? (cs : List Char) (more : Bool) : Option UrlFault :=
  match splitUser cs with
  | (none, host) => hostAndPortFault? host
  | (some user, host) =>
    let needsHost := if user.isEmpty then more else user ≠ [':']
    if host.isEmpty && needsHost then some .noHost else hostAndPortFault? host

end PreparedSql
