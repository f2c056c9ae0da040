/-!
# Binary floating-point numbers

A format fixes how many significant bits a number keeps and how wide its exponent field is.
`decode` reads a bit pattern as `± m · 2 ^ q`; `nearest` goes the other way, to the pattern
nearest to a quotient of naturals, a tie going to the even significand.

* `Double` and `Single` are the two formats in use, held as their bit patterns.
* `Double.mul` and `Double.div` are exact operations followed by one rounding.
-/

namespace PreparedSql

-- `2 ^ k` is the core library's power, also in modules where monoids have one of their own
attribute [instance (2000), default_instance 20000] instPowNat

/-- How many significant bits a number keeps, the leading one included, and how many bits its
exponent field has. -/
structure BinaryFormat where
  precision    : Nat
  exponentBits : Nat
deriving DecidableEq, Repr

/-- What a bit pattern stands for; a finite number is `± m · 2 ^ q`. -/
inductive BinaryNumber where
  | nan
  | infinite (negative : Bool)
  | finite (negative : Bool) (m : Nat) (q : Int)
deriving DecidableEq, Repr

/-- The natural nearest to `num / den`, a tie going to the even neighbour. -/
def roundHalfEven (num den : Nat) : Nat :=
  let m := num / den
  let r := num % den
  if 2 * r < den then m else if den < 2 * r then m + 1 else m + m % 2

/-- `num / den / 2 ^ q` as a quotient of naturals. -/
def overPowerOfTwo (num den : Nat) (q : Int) : Nat × Nat :=
  (num * 2 ^ (-q).toNat, den * 2 ^ q.toNat)

namespace BinaryFormat

def binary64 : BinaryFormat := ⟨53, 11⟩
def binary32 : BinaryFormat := ⟨24, 8⟩

variable (f : BinaryFormat)

/-- The exponent of the least positive number, which is `2 ^ minExponent`. -/
def minExponent : Int :=
  3 - (2 ^ (f.exponentBits - 1) : Nat) - (f.precision : Int)

/-- The pattern of positive infinity: every exponent bit set. -/
def infinityBits : Nat := (2 ^ f.exponentBits - 1) * 2 ^ (f.precision - 1)

/-- The pattern of the sign bit alone. -/
def signBit : Nat := 2 ^ (f.precision + f.exponentBits - 1)

/-- A quiet NaN without a payload. -/
def nanBits : Nat := f.infinityBits + 2 ^ (f.precision - 2)

def decode (bits : Nat) : BinaryNumber :=
  let negative := f.signBit ≤ bits
  let fraction := bits % 2 ^ (f.precision - 1)
  let exponent := bits / 2 ^ (f.precision - 1) % 2 ^ f.exponentBits
  if exponent = 2 ^ f.exponentBits - 1 then
    if fraction = 0 then .infinite negative else .nan
  else if exponent = 0 then
    .finite negative fraction f.minExponent
  else
    .finite negative (fraction + 2 ^ (f.precision - 1)) (f.minExponent + exponent - 1)

/-- The pattern of the number nearest to `num / den`. The exponent is the least one that leaves at
most `precision` bits before the point, so a subnormal result needs no case of its own: a
significand that rounds up to one bit more carries into the exponent field. -/
def nearest (num den : Nat) : Nat :=
  if num = 0 then 0 else
  let low : Int := (num.log2 : Int) - den.log2 - f.precision
  let wide := overPowerOfTwo num den low
  let q := max f.minExponent (if wide.1 / wide.2 < 2 ^ f.precision then low else low + 1)
  let at_q := overPowerOfTwo num den q
  min f.infinityBits
    ((q - f.minExponent).toNat * 2 ^ (f.precision - 1) + roundHalfEven at_q.1 at_q.2)

def signed (negative : Bool) (magnitude : Nat) : Nat :=
  if negative then f.signBit + magnitude else magnitude

/-- `± m · 2 ^ q`, rounded to the format. -/
def encode : BinaryNumber → Nat
  | .nan => f.nanBits
  | .infinite s => f.signed s f.infinityBits
  | .finite s m q => f.signed s (f.nearest (m * 2 ^ q.toNat) (2 ^ (-q).toNat))

end BinaryFormat

/-- A number in the 64-bit format, by its bit pattern. -/
structure Double where
  bits : UInt64
deriving DecidableEq, Repr

/-- A number in the 32-bit format, by its bit pattern. -/
structure Single where
  bits : UInt32
deriving DecidableEq, Repr

namespace Double

def number (x : Double) : BinaryNumber := BinaryFormat.binary64.decode x.bits.toNat

def ofNumber (x : BinaryNumber) : Double := ⟨.ofNat (BinaryFormat.binary64.encode x)⟩

/-- `± num / den`, rounded. -/
def ofRatio (negative : Bool) (num den : Nat) : Double :=
  ⟨.ofNat (BinaryFormat.binary64.signed negative (BinaryFormat.binary64.nearest num den))⟩

def ofInt (n : Int) : Double := ofRatio (n < 0) n.natAbs 1

def zero : Double := ⟨0⟩
def nan : Double := ofNumber .nan
def infinity (negative : Bool) : Double := ofNumber (.infinite negative)

def isFinite (x : Double) : Bool :=
  match x.number with
  | .finite .. => true
  | _ => false

def isZero (x : Double) : Bool :=
  match x.number with
  | .finite _ m _ => m == 0
  | _ => false

def neg (x : Double) : Double := ⟨x.bits ^^^ 0x8000000000000000⟩

/-- The rounded product. -/
def mul (x y : Double) : Double :=
  match x.number, y.number with
  | .finite s m q, .finite t n r => ofNumber (.finite (s != t) (m * n) (q + r))
  | .infinite s, .infinite t => infinity (s != t)
  | .infinite s, .finite t n _ | .finite t n _, .infinite s =>
    if n = 0 then nan else infinity (s != t)
  | .nan, _ | _, .nan => nan

/-- The rounded quotient. -/
def div (x y : Double) : Double :=
  match x.number, y.number with
  | .finite s m q, .finite t n r =>
    if n = 0 then (if m = 0 then nan else infinity (s != t))
    else ofRatio (s != t) (m * 2 ^ (q - r).toNat) (n * 2 ^ (r - q).toNat)
  | .infinite _, .infinite _ => nan
  | .infinite s, .finite t _ _ => infinity (s != t)
  | .finite s _ _, .infinite t => ofRatio (s != t) 0 1
  | .nan, _ | _, .nan => nan

end Double

namespace Single

def number (x : Single) : BinaryNumber := BinaryFormat.binary32.decode x.bits.toNat

def ofNumber (x : BinaryNumber) : Single := ⟨.ofNat (BinaryFormat.binary32.encode x)⟩

def zero : Single := ⟨0⟩

/-- The same number in the wider format, where it is exact. -/
def toDouble (x : Single) : Double := .ofNumber x.number

end Single

/-- The nearest number of the narrower format. -/
def Double.toSingle (x : Double) : Single := .ofNumber x.number

end PreparedSql
