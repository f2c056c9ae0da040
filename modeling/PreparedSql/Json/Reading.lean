import PreparedSql.Json
import PreparedSql.Number.Reading
import PreparedSql.Text.Hex
import PreparedSql.Text.Basic

/-!
# Reading JSON

`Json.read?` takes one document of strict JSON, with blanks around it, and at most 127 arrays and
objects inside one another. An integer of 64 bits, signed or not, stays an integer. Any other
number is a significand of at most 64 bits, later digits being dropped, times a power of ten: both
are rounded and then multiplied or divided once. A number beyond the largest finite one is refused;
one too small is zero.
-/

namespace PreparedSql.Json

/-- The text from the first character that is not a blank. -/
def skipBlanks (cs : List Char) : List Char :=
  cs.dropWhile fun c => c == ' ' || c == '\n' || c == '\t' || c == '\r'

/-! ### Numbers -/

/-- Digits appended to a significand as long as it stays below `2 ^ 64`; how many were not. -/
def appendDigits : (significand : Nat) → List Char → Nat × Nat
  | n, [] => (n, 0)
  | n, d :: ds =>
    let next := 10 * n + digitValue d
    if next < 2 ^ 64 then appendDigits next ds else (n, ds.length + 1)

/-- `10 ^ k` rounded. -/
def power (k : Nat) : Double := .ofRatio false (10 ^ k) 1

/-- `x · 10 ^ e` by one multiplication or division, or by several divisions where the power has no
finite number; nothing beyond the largest finite number. -/
def scale? (x : Double) (e : Int) : Option Double :=
  if e.natAbs ≤ 308 then
    let y := if 0 ≤ e then x.mul (power e.toNat) else x.div (power e.natAbs)
    if y.isFinite then some y else none
  else if x.isZero then some x
  else if 0 ≤ e then none
  else scale? (x.div (power 308)) (e + 308)
termination_by (-e).toNat

/-- A floating-point number of a document. -/
def real? (negative : Bool) (significand : Nat) (e : Int) : Option JsonNumber :=
  (scale? (.ofRatio false significand 1) e).bind fun x =>
    let x := if negative then x.neg else x
    if h : x.isFinite = true then some (.real x h) else none

/-- The exponent after `e`, with what follows. -/
def exponent? (cs : List Char) : Option (Int × List Char) :=
  let (negative, cs) := splitSign cs
  let ds := cs.takeWhile Char.isDigit
  if ds.isEmpty then none
  else some (if negative then -(digitsValue ds : Int) else digitsValue ds, cs.drop ds.length)

/-- The exponent part, if there is one, with what follows. -/
def exponentPart? : List Char → Option (Option Int × List Char)
  | 'e' :: rest | 'E' :: rest => (exponent? rest).map fun p => (some p.1, p.2)
  | rest => some (none, rest)

/-- The significand with the digits of the fraction, if there is one, how many of them it has, and
what follows. -/
def fractionPart? (whole : Nat) : List Char → Option (Nat × Option Nat × List Char)
  | '.' :: rest =>
    let fs := rest.takeWhile Char.isDigit
    if fs.isEmpty then none
    else
      let (significand, unused) := appendDigits whole fs
      some (significand, some (fs.length - unused), rest.drop fs.length)
  | rest => some (whole, none, rest)

/-- The number of a significand, the places of a fraction, an exponent, and how many digits were
dropped before the point. Where none of these is there it is an integer, if it fits. -/
def ofParts? (negative : Bool) (significand : Nat) (places : Option Nat) (e : Option Int)
    (dropped : Nat) : Option JsonNumber :=
  if places.isNone && e.isNone && dropped = 0 then
    if !negative then JsonNumber.ofInt? significand
    else if 0 < significand ∧ significand ≤ 2 ^ 63 then JsonNumber.ofInt? (-significand)
    else real? true significand 0
  else real? negative significand (dropped - (places.getD 0 : Nat) + e.getD 0)

/-- A number without its sign, with what follows: digits without a zero in front, a fraction and
an exponent. -/
def number? (negative : Bool) (cs : List Char) : Option (JsonNumber × List Char) :=
  let ds := cs.takeWhile Char.isDigit
  if !ds.isEmpty && (ds.length = 1 || ds.head? ≠ some '0') then do
    let (whole, dropped) := appendDigits 0 ds
    let (significand, places, rest) ← fractionPart? whole (cs.drop ds.length)
    let (e, rest) ← exponentPart? rest
    (ofParts? negative significand places e dropped).map (·, rest)
  else none

/-! ### Strings -/

/-- Four hexadecimal digits. -/
def unit? (cs : List Char) : Option (Nat × List Char) :=
  if (cs.take 4).length = 4 then (readHex? (cs.take 4)).map (·, cs.drop 4) else none

/-- The character of an escape `u`: one unit, or two that form a pair of surrogates. -/
def unicodeEscape? (cs : List Char) : Option (Char × List Char) := do
  let (n, rest) ← unit? cs
  if 0xDC00 ≤ n ∧ n ≤ 0xDFFF then none
  else if 0xD800 ≤ n ∧ n ≤ 0xDBFF then
    match rest with
    | '\\' :: 'u' :: rest => do
      let (low, rest) ← unit? rest
      if 0xDC00 ≤ low ∧ low ≤ 0xDFFF then
        pure (Char.ofNat (0x10000 + (n - 0xD800) * 0x400 + (low - 0xDC00)), rest)
      else none
    | _ => none
  else pure (Char.ofNat n, rest)

/-- The character of an escape, after the backslash. -/
def escape? : List Char → Option (Char × List Char)
  | '"' :: rest => some ('"', rest)
  | '\\' :: rest => some ('\\', rest)
  | '/' :: rest => some ('/', rest)
  | 'b' :: rest => some ('\x08', rest)
  | 'f' :: rest => some ('\x0c', rest)
  | 'n' :: rest => some ('\n', rest)
  | 'r' :: rest => some ('\r', rest)
  | 't' :: rest => some ('\t', rest)
  | 'u' :: rest => unicodeEscape? rest
  | _ => none

/-- The characters up to the closing quote, with what follows it. -/
def stringBody? : (fuel : Nat) → List Char → Option (List Char × List Char)
  | 0, _ => none
  | _ + 1, [] => none
  | fuel + 1, c :: rest =>
    if c = '"' then some ([], rest)
    else if c = '\\' then do
      let (x, rest) ← escape? rest
      let (xs, rest) ← stringBody? fuel rest
      pure (x :: xs, rest)
    else if c.toNat < 32 then none
    else do
      let (xs, rest) ← stringBody? fuel rest
      pure (c :: xs, rest)

/-- A string after its opening quote. -/
def string? (cs : List Char) : Option (String × List Char) :=
  (stringBody? (cs.length + 1) cs).map fun p => (String.ofList p.1, p.2)

/-! ### Documents -/

mutual

/-- A value, with what follows; `depth` arrays and objects may still be opened. -/
def value? : (fuel depth : Nat) → List Char → Option (Json × List Char)
  | 0, _, _ => none
  | fuel + 1, depth, cs =>
    match skipBlanks cs with
    | 'n' :: rest => (afterStart? ['u', 'l', 'l'] rest).map (.null, ·)
    | 't' :: rest => (afterStart? ['r', 'u', 'e'] rest).map (.bool true, ·)
    | 'f' :: rest => (afterStart? ['a', 'l', 's', 'e'] rest).map (.bool false, ·)
    | '-' :: rest => (number? true rest).map fun p => (.number p.1, p.2)
    | '"' :: rest => (string? rest).map fun p => (.string p.1, p.2)
    | '[' :: rest =>
      match depth, skipBlanks rest with
      | 0, _ => none
      | _ + 1, ']' :: rest => some (.array [], rest)
      | depth + 1, rest => (items? fuel depth rest).map fun p => (.array p.1, p.2)
    | '{' :: rest =>
      match depth, skipBlanks rest with
      | 0, _ => none
      | _ + 1, '}' :: rest => some (.object [], rest)
      | depth + 1, rest => (members? fuel depth rest).map fun p => (ofMembers p.1, p.2)
    | rest => (number? false rest).map fun p => (.number p.1, p.2)

/-- One or more values with commas between them, up to the closing bracket. -/
def items? : (fuel depth : Nat) → List Char → Option (List Json × List Char)
  | 0, _, _ => none
  | fuel + 1, depth, cs => do
    let (item, rest) ← value? fuel depth cs
    match skipBlanks rest with
    | ']' :: rest => pure ([item], rest)
    | ',' :: rest => do
      let (others, rest) ← items? fuel depth rest
      pure (item :: others, rest)
    | _ => none

/-- One or more members with commas between them, up to the closing brace. -/
def members? : (fuel depth : Nat) → List Char → Option (List (String × Json) × List Char)
  | 0, _, _ => none
  | fuel + 1, depth, cs =>
    match skipBlanks cs with
    | '"' :: rest => do
      let (key, rest) ← string? rest
      match skipBlanks rest with
      | ':' :: rest => do
        let (value, rest) ← value? fuel depth rest
        match skipBlanks rest with
        | '}' :: rest => pure ([(key, value)], rest)
        | ',' :: rest => do
          let (others, rest) ← members? fuel depth rest
          pure ((key, value) :: others, rest)
        | _ => none
      | _ => none
    | _ => none

end

/-- So many arrays and objects may stand inside one another. -/
def nestingLimit : Nat := 127

/-- The document that the text writes, if it writes one. -/
def read? (s : String) : Option Json :=
  let cs := s.toList
  match value? (cs.length + 1) nestingLimit cs with
  | some (j, rest) => if (skipBlanks rest).isEmpty then some j else none
  | none => none

end PreparedSql.Json
