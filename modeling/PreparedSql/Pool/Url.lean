import PreparedSql.Error
import PreparedSql.Pool.Authority
import PreparedSql.Text.Basic

/-!
# Database URLs

The part of a URL before the first `://` names a dialect, in any letter case. `driverUrl` is the URL
as the drivers take it: TiDB speaks the protocol of MySQL and has no driver of its own.

* `urlFault?` says why a URL cannot be handed to a driver: its authority has a fault, or no driver
  has its scheme.
-/

namespace PreparedSql

/-- The dialect with a name, in any letter case. -/
def Dialect.ofName (name : String) : Except Error Dialect :=
  match Dialect.ofLowerName? (lowerCase name) with
  | some d => pure d
  | none => throw (.config (.unsupportedDialect (lowerCase name)))

/-- What stands before and after the first `://`. -/
def cutUrl? (url : String) : Option (String × String) :=
  (cutAt? "://".toList url.toList).map fun p => (String.ofList p.1, String.ofList p.2)

/-- The dialect that the scheme of a URL names. -/
def Dialect.ofUrl (url : String) : Except Error Dialect :=
  match cutUrl? url with
  | some (scheme, _) => Dialect.ofName scheme
  | none => throw (.config (.noScheme url))

/-- The URL as the driver of a dialect takes it. -/
def driverUrl (d : Dialect) (url : String) : String :=
  match d, cutUrl? url with
  | .tidb, some (_, rest) => "mysql://" ++ rest
  | _, _ => url

/-! ### Well-formed URLs -/

/-- The schemes that have a driver. -/
def driverSchemes : List String := ["postgres", "postgresql", "mysql"]

/-- The characters that count in what follows the scheme: blanks and controls at its end do not, and
neither do tabs and newlines anywhere. -/
def significant (cs : List Char) : List Char :=
  (cs.reverse.dropWhile (· ≤ ' ')).reverse.filter fun c => c ≠ '\t' && c ≠ '\n' && c ≠ '\r'

/-- The first fault of a URL: its authority, up to a slash, a question mark or a number sign, is read
before its scheme is looked up. -/
def urlFault? (url : String) : Option UrlFault :=
  match cutUrl? url with
  | none => some (.scheme "")
  | some (scheme, rest) =>
    let cs := significant rest.toList
    let authority := cs.takeWhile fun c => c ≠ '/' && c ≠ '?' && c ≠ '#'
    match authorityFault? authority (authority.length < cs.length) with
    | some fault => some fault
    | none =>
      if driverSchemes.contains (lowerCase scheme) then none else some (.scheme (lowerCase scheme))

end PreparedSql
