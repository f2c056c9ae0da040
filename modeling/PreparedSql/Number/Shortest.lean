import PreparedSql.Number.Binary

/-!
# Shortest decimals

The decimal with the fewest digits among those that read back as a given binary number, and of
those the nearest. The reals that round to `m · 2 ^ q` form an interval, ends included exactly when
`m` is even; for one digit, two digits and so on, the two neighbours of the number on that decimal
grid are tested against the interval in exact arithmetic, and the first grid with a hit wins.
-/

namespace PreparedSql

/-- `digits · 10 ^ exponent`. -/
structure Decimal where
  digits   : Nat
  exponent : Int
deriving DecidableEq, Repr

/-- Which of two equally near decimals is taken. -/
inductive Tie where
  | up
  | even
deriving DecidableEq, Repr

/-- How many decimal digits `n` has. -/
def decimalLength (n : Nat) : Nat := (Nat.toDigits 10 n).length

/-- The exponent `e` with `10 ^ e ≤ num / den < 10 ^ (e + 1)`. -/
def leadingExponent (num den : Nat) : Int :=
  if den ≤ num then decimalLength (num / den) - 1 else -(decimalLength ((den - 1) / num) : Int)

namespace Decimal

/-- The same value with trailing zeros moved into the exponent, at most `fuel` of them. -/
def stripZeros : (fuel : Nat) → Decimal → Decimal
  | 0, x => x
  | fuel + 1, ⟨d, e⟩ =>
    if d ≠ 0 ∧ d % 10 = 0 then stripZeros fuel ⟨d / 10, e + 1⟩ else ⟨d, e⟩

end Decimal

namespace BinaryFormat

/-- So many decimal digits tell any two numbers of the format apart. -/
def sufficientDigits (f : BinaryFormat) : Nat := f.precision * 30103 / 100000 + 2

/-- The neighbour of `m · 2 ^ q` on the grid of multiples of `10 ^ k` that reads back, if one does.
All quantities are counted in units of `2 ^ (q - 2) · 10 ^ k` with the denominators multiplied
out; the lower half of the interval is only half as wide where the exponent changes. -/
def gridHit? (f : BinaryFormat) (tie : Tie) (m : Nat) (q k : Int) : Option Nat :=
  let step  := 10 ^ k.toNat * 2 ^ (2 - q).toNat
  let scale := 2 ^ (q - 2).toNat * 10 ^ (-k).toNat
  let below := if m = 2 ^ (f.precision - 1) ∧ f.minExponent < q then 1 else 2
  let value := 4 * m * scale
  let low   := (4 * m - below) * scale
  let high  := (4 * m + 2) * scale
  let inside (x : Nat) : Bool :=
    if m % 2 = 0 then low ≤ x && x ≤ high else low < x && x < high
  let d := value / step
  let rest := value % step
  match inside (d * step), inside ((d + 1) * step) with
  | true,  true  =>
    if 2 * rest < step then some d
    else if step < 2 * rest then some (d + 1)
    else match tie with
      | .up   => some (d + 1)
      | .even => some (d + d % 2)
  | true,  false => some d
  | false, true  => some (d + 1)
  | false, false => none

/-- The first grid with a hit, from `10 ^ k` downwards. -/
def firstHit (f : BinaryFormat) (tie : Tie) (m : Nat) (q : Int) : (fuel : Nat) → (k : Int) → Decimal
  | 0, k => ⟨m * 2 ^ q.toNat * 10 ^ (-k).toNat / (2 ^ (-q).toNat * 10 ^ k.toNat), k⟩
  | fuel + 1, k =>
    match f.gridHit? tie m q k with
    | some d => ⟨d, k⟩
    | none => firstHit f tie m q fuel (k - 1)

/-- The shortest decimal that reads back as `m · 2 ^ q`. -/
def shortest (f : BinaryFormat) (tie : Tie) (m : Nat) (q : Int) : Decimal :=
  if m = 0 then ⟨0, 0⟩ else
  let k := leadingExponent (m * 2 ^ q.toNat) (2 ^ (-q).toNat)
  (f.firstHit tie m q f.sufficientDigits k).stripZeros f.sufficientDigits

end BinaryFormat

end PreparedSql
