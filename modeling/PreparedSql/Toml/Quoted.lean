import PreparedSql.Number.Reading
import PreparedSql.Text.Hex
import PreparedSql.Text.Basic

/-!
# TOML strings

A string has four written forms: basic and literal, each on one line or on several. Basic forms
have escapes, literal forms have none.

* `Toml.quoted` writes a string in the plainest form that can hold it.
* `Toml.string?` reads any of the four.
-/

namespace PreparedSql.Toml

/-- The four forms of a string. -/
inductive StringForm where
  | basic
  | literal
  | multilineBasic
  | multilineLiteral
deriving DecidableEq, Repr

namespace StringForm

def isMultiline : StringForm → Bool
  | .basic | .literal => false
  | .multilineBasic | .multilineLiteral => true

def hasEscapes : StringForm → Bool
  | .basic | .multilineBasic => true
  | .literal | .multilineLiteral => false

/-- The quote character. -/
def quote (f : StringForm) : Char := if f.hasEscapes then '"' else '\''

/-- What stands before and after the text. -/
def delimiter (f : StringForm) : List Char :=
  List.replicate (if f.isMultiline then 3 else 1) f.quote

/-- How many quotes in a row the text may hold. -/
def quotesInside (f : StringForm) : Nat := if f.isMultiline then 2 else 0

end StringForm

/-- A control character that is neither a tab nor a newline. -/
def isControl (c : Char) : Bool := (c.toNat < 0x20 && c ≠ '\t' && c ≠ '\n') || c.toNat = 0x7F

/-- The length of the longest run of `q`, where `run` of them stand before the text. -/
def longestRun (q : Char) : (run : Nat) → List Char → Nat
  | run, [] => run
  | run, c :: cs => if c = q then longestRun q (run + 1) cs else max run (longestRun q 0 cs)

/-- The form holds the text without an escape for anything but a tab. -/
def StringForm.fits (f : StringForm) (cs : List Char) : Bool :=
  !cs.any isControl && (f.isMultiline || !cs.contains '\n') &&
    (!f.hasEscapes || !cs.contains '\\') && longestRun f.quote 0 cs ≤ f.quotesInside

/-- The first form that fits, one line before several and basic before literal, and else a basic
form with escapes. -/
def StringForm.ofText (cs : List Char) : StringForm :=
  ([.basic, .literal, .multilineBasic, .multilineLiteral].find? (·.fits cs)).getD
    (if cs.contains '\n' then .multilineBasic else .basic)

/-! ### Writing -/

/-- A character of a basic form that is not a quote. -/
def escapeChar (f : StringForm) (c : Char) : List Char :=
  if c = '\\' then ['\\', '\\']
  else if c = '\t' then ['\\', 't']
  else if c = '\n' then (if f.isMultiline then [c] else ['\\', 'n'])
  else if c = '\x08' then ['\\', 'b']
  else if c = '\x0c' then ['\\', 'f']
  else if c = '\r' then ['\\', 'r']
  else if isControl c then ['\\', 'u', '0', '0'] ++ (hexDigits 2 c.toNat).map Char.toUpper
  else [c]

/-- The text of a basic form, after `run` quotes in a row. -/
def escaped (f : StringForm) : (run : Nat) → List Char → List Char
  | _, [] => []
  | run, c :: cs =>
    if c = '"' then
      if run < f.quotesInside then c :: escaped f (run + 1) cs else '\\' :: c :: escaped f 0 cs
    else escapeChar f c ++ escaped f 0 cs

/-- The text in a form; on several lines, it starts on a line of its own. -/
def inForm (f : StringForm) (cs : List Char) : List Char :=
  let start := if f.isMultiline && cs.contains '\n' then ['\n'] else []
  f.delimiter ++ start ++ (if f.hasEscapes then escaped f 0 cs else cs) ++ f.delimiter

/-- The string in its form. -/
def quoted (s : String) : List Char := inForm (.ofText s.toList) s.toList

/-! ### Reading -/

/-- A character that strings and comments can hold as it is. -/
def isPlain (c : Char) : Bool := c = '\t' || (0x20 ≤ c.toNat && c.toNat ≠ 0x7F)

/-- A newline, and what follows it. -/
def newline? : List Char → Option (List Char)
  | '\n' :: rest => some rest
  | '\r' :: '\n' :: rest => some rest
  | _ => none

/-- The text without a newline in front, if it has one. -/
def skipNewline (cs : List Char) : List Char := (newline? cs).getD cs

/-- The text from the first character that is neither a space nor a tab. -/
def skipSpaces (cs : List Char) : List Char := cs.dropWhile fun c => c = ' ' || c = '\t'

/-- The text without the spaces, tabs and newlines in front. -/
def skipLines (cs : List Char) : List Char :=
  match cs with
  | [] => []
  | '\r' :: '\n' :: rest => skipLines rest
  | c :: rest => if c = ' ' ∨ c = '\t' ∨ c = '\n' then skipLines rest else c :: rest

/-- The character with the code point that `width` hexadecimal digits give. -/
def codePoint? (width : Nat) (cs : List Char) : Option (Char × List Char) :=
  let ds := cs.take width
  if ds.length = width then
    (readHex? ds).bind fun n =>
      if n.isValidChar then some (Char.ofNat n, cs.drop width) else none
  else none

/-- The character of an escape, after the backslash. -/
def escape? : List Char → Option (Char × List Char)
  | '"' :: rest => some ('"', rest)
  | '\\' :: rest => some ('\\', rest)
  | 'b' :: rest => some ('\x08', rest)
  | 't' :: rest => some ('\t', rest)
  | 'n' :: rest => some ('\n', rest)
  | 'f' :: rest => some ('\x0c', rest)
  | 'r' :: rest => some ('\r', rest)
  | 'u' :: rest => codePoint? 4 rest
  | 'U' :: rest => codePoint? 8 rest
  | _ => none

/-- The text of a form on one line, up to the closing quote, with what follows that quote. -/
def lineText? (f : StringForm) : (fuel : Nat) → List Char → Option (List Char × List Char)
  | 0, _ => none
  | _ + 1, [] => none
  | fuel + 1, c :: rest =>
    if c = f.quote then some ([], rest)
    else if c = '\\' ∧ f.hasEscapes then do
      let (x, rest) ← escape? rest
      let (xs, rest) ← lineText? f fuel rest
      pure (x :: xs, rest)
    else if isPlain c then do
      let (xs, rest) ← lineText? f fuel rest
      pure (c :: xs, rest)
    else none

/-- The text of a form on several lines, up to the closing delimiter. Of a run of quotes as long as
the delimiter or longer, up to two belong to the text. A backslash at the end of a line takes the
newline and all blanks after it away. -/
def linesText? (f : StringForm) : (fuel : Nat) → List Char → Option (List Char × List Char)
  | 0, _ => none
  | _ + 1, [] => none
  | fuel + 1, c :: rest =>
    if c = f.quote then
      let run := ((c :: rest).takeWhile (· = f.quote)).length
      let after := (c :: rest).drop run
      if run < 3 then do
        let (xs, rest) ← linesText? f fuel after
        pure (List.replicate run c ++ xs, rest)
      else some (List.replicate (min (run - 3) 2) c, List.replicate (run - 5) c ++ after)
    else if c = '\\' ∧ f.hasEscapes then
      match newline? (skipSpaces rest) with
      | some rest => linesText? f fuel (skipLines rest)
      | none => do
        let (x, rest) ← escape? rest
        let (xs, rest) ← linesText? f fuel rest
        pure (x :: xs, rest)
    else
      match newline? (c :: rest) with
      | some rest => do
        let (xs, rest) ← linesText? f fuel rest
        pure ('\n' :: xs, rest)
      | none =>
        if isPlain c then do
          let (xs, rest) ← linesText? f fuel rest
          pure (c :: xs, rest)
        else none

/-- A string of any form, and what follows it. -/
def string? (cs : List Char) : Option (String × List Char) :=
  let text? := match cs with
    | '"' :: '"' :: '"' :: rest => linesText? .multilineBasic (cs.length + 1) (skipNewline rest)
    | '\'' :: '\'' :: '\'' :: rest => linesText? .multilineLiteral (cs.length + 1) (skipNewline rest)
    | '"' :: rest => lineText? .basic (cs.length + 1) rest
    | '\'' :: rest => lineText? .literal (cs.length + 1) rest
    | _ => none
  text?.map fun p => (String.ofList p.1, p.2)

end PreparedSql.Toml
