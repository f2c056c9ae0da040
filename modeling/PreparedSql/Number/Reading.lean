import PreparedSql.Number.Shortest

/-!
# Reading numbers

Integers have an optional sign and one or more ASCII digits; floating-point numbers add a fraction,
an exponent, and the words for infinity and NaN in any letter case. Reading rounds to the nearest
number whatever the number of digits.
-/

namespace PreparedSql

/-- The value of a digit character. -/
def digitValue (c : Char) : Nat := c.toNat - '0'.toNat

/-- The natural that a list of decimal digits writes. -/
def digitsValue (cs : List Char) : Nat := cs.foldl (fun n c => 10 * n + digitValue c) 0

/-- One or more ASCII digits and nothing else. -/
def isNumeral (cs : List Char) : Bool := !cs.isEmpty && cs.all Char.isDigit

/-- A sign in front, and the rest. -/
def splitSign : List Char → Bool × List Char
  | '-' :: cs => (true, cs)
  | '+' :: cs => (false, cs)
  | cs => (false, cs)

/-- An integer with an optional sign, of any size. -/
def readInt? (cs : List Char) : Option Int :=
  let (negative, ds) := splitSign cs
  if isNumeral ds then some (if negative then -(digitsValue ds : Int) else digitsValue ds) else none

/-- A natural, with an optional plus sign; a minus sign is refused, also before zero. -/
def readNat? (cs : List Char) : Option Nat :=
  let ds := match cs with
    | '+' :: rest => rest
    | _ => cs
  if isNumeral ds then some (digitsValue ds) else none

/-- A natural that fits 64 bits. -/
def readUInt64? (cs : List Char) : Option UInt64 :=
  ((readNat? cs).filter (· < 2 ^ 64)).map UInt64.ofNat

/-- `± digits · 10 ^ exponent` to the nearest number. Beyond the format's reach the answer is
infinity or zero, found without forming the power. -/
def Double.ofDecimal (negative : Bool) (x : Decimal) : Double :=
  let reach : Int := 2 ^ (BinaryFormat.binary64.exponentBits - 1)
  let leading := decimalLength x.digits - 1 + x.exponent
  if x.digits = 0 ∨ leading < -reach then .ofRatio negative 0 1
  else if reach < leading then .infinity negative
  else .ofRatio negative (x.digits * 10 ^ x.exponent.toNat) (10 ^ (-x.exponent).toNat)

/-- An exponent part, `e` or `E` and an integer; no exponent part at all is zero. -/
def readExponent? : List Char → Option Int
  | [] => some 0
  | c :: cs => if c = 'e' ∨ c = 'E' then readInt? cs else none

/-- Digits, a fraction and an exponent; there is a digit before or after the point. -/
def readDecimal? (cs : List Char) : Option Decimal :=
  let whole := cs.takeWhile Char.isDigit
  let rest := cs.dropWhile Char.isDigit
  let (fraction, rest) := match rest with
    | '.' :: rest => (rest.takeWhile Char.isDigit, rest.dropWhile Char.isDigit)
    | _ => ([], rest)
  if whole.isEmpty && fraction.isEmpty then none
  else (readExponent? rest).map fun e => ⟨digitsValue (whole ++ fraction), e - fraction.length⟩

/-- A floating-point number: an optional sign, then a decimal or one of the words `inf`,
`infinity` and `nan` in any letter case. -/
def Double.read? (cs : List Char) : Option Double :=
  let (negative, rest) := splitSign cs
  match readDecimal? rest with
  | some x => some (.ofDecimal negative x)
  | none =>
    match String.ofList (rest.map Char.toLower) with
    | "inf" | "infinity" => some (.infinity negative)
    | "nan" => some .nan
    | _ => none

end PreparedSql
