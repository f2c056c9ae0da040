import PreparedSql.Number.Shortest

/-!
# The text of a floating-point number

Two layouts of the shortest digits. `Double.plain` and `Single.plain` never use an exponent and
write whole numbers without a point; `Double.scientific` writes an exponent outside a window and
keeps `.0` inside it.
-/

namespace PreparedSql

/-- `n` as decimal digits. -/
def decimalDigits (n : Nat) : List Char := Nat.toDigits 10 n

namespace Decimal

/-- The exponent of the first digit. -/
def leading (x : Decimal) : Int := (decimalDigits x.digits).length - 1 + x.exponent

/-- Digits and a point where needed, without an exponent; `whole` stands after the digits of a
whole number. -/
def plainWith (whole : List Char) (x : Decimal) : List Char :=
  let ds := decimalDigits x.digits
  if 0 ≤ x.exponent then
    (if x.digits = 0 then ds else ds ++ List.replicate x.exponent.toNat '0') ++ whole
  else
    let places := (-x.exponent).toNat
    if places < ds.length then
      ds.take (ds.length - places) ++ '.' :: ds.drop (ds.length - places)
    else
      '0' :: '.' :: (List.replicate (places - ds.length) '0' ++ ds)

/-- One digit, a point and the other digits if there are any, and a signed exponent. -/
def withExponent (x : Decimal) : List Char :=
  let mantissa := match decimalDigits x.digits with
    | d :: [] => [d]
    | d :: ds => d :: '.' :: ds
    | [] => []
  let e := x.leading
  mantissa ++ 'e' :: (if e < 0 then '-' else '+') :: decimalDigits e.natAbs

end Decimal

/-- A sign, if any, before the text of a magnitude. -/
def signedText (negative : Bool) (cs : List Char) : List Char := if negative then '-' :: cs else cs

namespace BinaryFormat

/-- Shortest digits without an exponent, a tie going up: `1`, `-0`, `0.1`, `NaN`, `-inf`. -/
def plain (f : BinaryFormat) : BinaryNumber → List Char
  | .nan => ['N', 'a', 'N']
  | .infinite s => signedText s ['i', 'n', 'f']
  | .finite s m q => signedText s ((f.shortest .up m q).plainWith [])

end BinaryFormat

def Double.plain (x : Double) : List Char := BinaryFormat.binary64.plain x.number
def Single.plain (x : Single) : List Char := BinaryFormat.binary32.plain x.number

/-- Shortest digits, a tie going to the even digit, written plainly when the first digit's
exponent lies in -5..15 and with an exponent otherwise: `1.0`, `0.00001`, `1e-6`, `1e+16`. -/
def Double.scientific (x : Double) : List Char :=
  match x.number with
  | .nan => ['N', 'a', 'N']
  | .infinite s => signedText s ['i', 'n', 'f']
  | .finite s m q =>
    let d := BinaryFormat.binary64.shortest .even m q
    signedText s (if -5 ≤ d.leading ∧ d.leading ≤ 15 then d.plainWith ['.', '0'] else d.withExponent)

end PreparedSql
