import Mathlib.Data.Nat.Cast.Order.Field
import PreparedSql.Number.Shortest
import PreparedSql.Proofs.Rounding

/-!
# What a shortest decimal can be

A decimal found on a grid lies in the interval of the number it stands for, and the search starts
at the number's own size, one digit more with each grid.

* `BinaryFormat.value_shortest_le`: the shortest decimal of `m · 2 ^ q` is no greater than
  `(m + 1 / 2) · 2 ^ q`, from where on numbers are rounded away from `m · 2 ^ q`.
* `BinaryFormat.digits_shortest_le`: it has hardly more digits than the format needs.
-/

namespace PreparedSql

theorem ten_zpow_pos (k : Int) : (0 : ℚ) < 10 ^ k := zpow_pos (by norm_num) k

theorem ten_zpow_add (a b : Int) : (10 : ℚ) ^ (a + b) = 10 ^ a * 10 ^ b :=
  zpow_add₀ (by norm_num) a b

/-- A power with the denominator multiplied out. -/
theorem zpow_mul_pow_toNat {b : ℚ} (hb : b ≠ 0) (k : Int) :
    b ^ k * b ^ (-k).toNat = b ^ k.toNat := by
  rw [← zpow_natCast, ← zpow_natCast, ← zpow_add₀ hb]
  congr 1
  omega

namespace Decimal

/-- The number that is written. -/
def value (x : Decimal) : ℚ := x.digits * 10 ^ x.exponent

theorem value_stripZeros (fuel : Nat) (x : Decimal) : (x.stripZeros fuel).value = x.value := by
  induction fuel generalizing x with
  | zero => rfl
  | succ fuel ih =>
      obtain ⟨d, e⟩ := x
      rw [stripZeros]
      split
      · next h =>
          have parts : (d : ℚ) = (d / 10 : Nat) * 10 := by
            exact_mod_cast (Nat.div_mul_cancel (Nat.dvd_of_mod_eq_zero h.2)).symm
          rw [ih, value, value, parts, ten_zpow_add, zpow_one]
          ring
      · rfl

theorem digits_stripZeros_le (fuel : Nat) (x : Decimal) :
    (x.stripZeros fuel).digits ≤ x.digits := by
  induction fuel generalizing x with
  | zero => exact Nat.le_refl _
  | succ fuel ih =>
      obtain ⟨d, e⟩ := x
      rw [stripZeros]
      split
      · exact (ih _).trans (Nat.div_le_self d 10)
      · exact Nat.le_refl _

end Decimal

/-! ### The size of a quotient -/

theorem lt_ten_pow_decimalLength (n : Nat) : n < 10 ^ decimalLength n :=
  (Nat.length_toDigits_le_iff (by decide) Nat.length_toDigits_pos).1 (Nat.le_refl _)

theorem ten_pow_decimalLength_le {n : Nat} (h : 0 < n) : 10 ^ (decimalLength n - 1) ≤ n := by
  by_contra lt
  rcases Nat.eq_zero_or_pos (decimalLength n - 1) with zero | pos
  · rw [zero] at lt
    omega
  · have short := (Nat.length_toDigits_le_iff (by decide) pos).2 (Nat.lt_of_not_le lt)
    have : decimalLength n ≤ decimalLength n - 1 := short
    omega

theorem decimalLength_pos (n : Nat) : 0 < decimalLength n := Nat.length_toDigits_pos

theorem lt_ten_zpow_leadingExponent {num den : Nat} (hnum : 0 < num) (hden : 0 < den) :
    (num : ℚ) / den < 10 ^ (leadingExponent num den + 1) := by
  have pos : (0 : ℚ) < den := by exact_mod_cast hden
  rw [leadingExponent, div_lt_iff₀ pos]
  split
  · have lt : num < 10 ^ decimalLength (num / den) * den :=
      (Nat.div_lt_iff_lt_mul hden).1 (lt_ten_pow_decimalLength _)
    rw [sub_add_cancel, zpow_natCast]
    exact_mod_cast lt
  · next below =>
      have one : 1 ≤ (den - 1) / num := (Nat.le_div_iff_mul_le hnum).2 (by omega)
      have le : 10 ^ (decimalLength ((den - 1) / num) - 1) * num ≤ den - 1 :=
        (Nat.le_div_iff_mul_le hnum).1 (ten_pow_decimalLength_le one)
      have lt : 10 ^ (decimalLength ((den - 1) / num) - 1) * num < den := by omega
      have ltQ : (10 : ℚ) ^ (decimalLength ((den - 1) / num) - 1) * num < den := by
        exact_mod_cast lt
      have length := decimalLength_pos ((den - 1) / num)
      have exponent : -(decimalLength ((den - 1) / num) : Int) + 1 =
          -((decimalLength ((den - 1) / num) - 1 : Nat) : Int) := by omega
      rw [exponent, zpow_neg, zpow_natCast, ← div_eq_inv_mul, lt_div_iff₀ (by positivity),
        mul_comm]
      exact ltQ

namespace BinaryFormat

variable (f : BinaryFormat)

/-! ### One grid -/

/-- The distance on the grid, and what a unit is counted as. -/
def gridStep (q k : Int) : Nat := 10 ^ k.toNat * 2 ^ (2 - q).toNat
def gridScale (q k : Int) : Nat := 2 ^ (q - 2).toNat * 10 ^ (-k).toNat

theorem gridStep_pos (q k : Int) : 0 < gridStep q k :=
  Nat.mul_pos (Nat.pow_pos (by decide)) (Nat.two_pow_pos _)

/-- Distances are counted right. -/
theorem gridScale_mul (q k : Int) :
    (gridScale q k : ℚ) * 10 ^ k = gridStep q k * 2 ^ (q - 2) := by
  have tens := zpow_mul_pow_toNat (b := 10) (by norm_num) k
  have twos := zpow_mul_pow_toNat (b := 2) (by norm_num) (q - 2)
  rw [neg_sub] at twos
  simp only [gridScale, gridStep]
  push_cast
  rw [← tens, ← twos]
  ring

/-- Distances are counted in quarters of the unit. -/
theorem le_of_grid_le {d n : Nat} {q k : Int} (h : d * gridStep q k ≤ n * gridScale q k) :
    (d : ℚ) * 10 ^ k ≤ n / 4 * 2 ^ q := by
  have quarter : (2 : ℚ) ^ (q - 2) = 2 ^ q / 4 := by
    rw [zpow_sub₀ two_ne_zero]
    norm_num
  have hQ : (d : ℚ) * gridStep q k ≤ n * gridScale q k := by exact_mod_cast h
  have pos : (0 : ℚ) < gridStep q k := by exact_mod_cast gridStep_pos q k
  refine le_of_mul_le_mul_left ?_ pos
  calc (gridStep q k : ℚ) * (d * 10 ^ k) = d * gridStep q k * 10 ^ k := by ring
    _ ≤ n * gridScale q k * 10 ^ k := mul_le_mul_of_nonneg_right hQ (ten_zpow_pos k).le
    _ = gridStep q k * (n / 4 * 2 ^ q) := by rw [mul_assoc, gridScale_mul, quarter]; ring

/-- Whether a multiple of the unit lies in the interval of the number. -/
def inside (m : Nat) (q k : Int) (x : Nat) : Bool :=
  let scale := gridScale q k
  let below := if m = 2 ^ (f.precision - 1) ∧ f.minExponent < q then 1 else 2
  if m % 2 = 0 then (4 * m - below) * scale ≤ x && x ≤ (4 * m + 2) * scale
  else (4 * m - below) * scale < x && x < (4 * m + 2) * scale

theorem le_of_inside {m x : Nat} {q k : Int} (h : f.inside m q k x = true) :
    x ≤ (4 * m + 2) * gridScale q k := by
  rw [inside] at h
  split at h <;> simp only [Bool.and_eq_true, decide_eq_true_eq] at h
  · exact h.2
  · exact h.2.le

/-- Which of the grid's neighbours `d` and `d + 1` is taken, by whether they lie in the interval. -/
def neighbour (tie : Tie) (d rest step : Nat) (low high : Bool) : Option Nat :=
  match low, high with
  | true,  true  =>
    if 2 * rest < step then some d
    else if step < 2 * rest then some (d + 1)
    else match tie with
      | .up   => some (d + 1)
      | .even => some (d + d % 2)
  | true,  false => some d
  | false, true  => some (d + 1)
  | false, false => none

theorem gridHit?_eq (tie : Tie) (m : Nat) (q k : Int) :
    f.gridHit? tie m q k =
      let d := 4 * m * gridScale q k / gridStep q k
      neighbour tie d (4 * m * gridScale q k % gridStep q k) (gridStep q k)
        (f.inside m q k (d * gridStep q k)) (f.inside m q k ((d + 1) * gridStep q k)) :=
  rfl

theorem neighbour_some {tie : Tie} {d rest step x : Nat} {low high : Bool}
    (h : neighbour tie d rest step low high = some x) :
    low = true ∧ x = d ∨ high = true ∧ x = d + 1 := by
  cases low <;> cases high
  · cases h
  · exact .inr ⟨rfl, (Option.some.inj h).symm⟩
  · exact .inl ⟨rfl, (Option.some.inj h).symm⟩
  · -- of two hits the nearer one, and in the middle either
    simp only [neighbour] at h
    have even := Nat.mod_two_eq_zero_or_one d
    split at h
    · exact .inl ⟨rfl, (Option.some.inj h).symm⟩
    · split at h
      · exact .inr ⟨rfl, (Option.some.inj h).symm⟩
      · cases tie
        · exact .inr ⟨rfl, (Option.some.inj h).symm⟩
        · obtain rfl := Option.some.inj h
          rcases even with even | odd
          · exact .inl ⟨rfl, by omega⟩
          · exact .inr ⟨rfl, by omega⟩

/-- A hit lies in the interval, and next to the number. -/
theorem gridHit?_some {tie : Tie} {m d : Nat} {q k : Int} (h : f.gridHit? tie m q k = some d) :
    d * gridStep q k ≤ (4 * m + 2) * gridScale q k ∧
      d ≤ 4 * m * gridScale q k / gridStep q k + 1 := by
  rw [gridHit?_eq] at h
  rcases neighbour_some h with ⟨inside, rfl⟩ | ⟨inside, rfl⟩
  · exact ⟨f.le_of_inside inside, Nat.le_succ _⟩
  · exact ⟨f.le_of_inside inside, Nat.le_refl _⟩

/-! ### The search -/

/-- A hit is no greater than the upper end of the interval. -/
theorem value_gridHit?_le {tie : Tie} {m d : Nat} {q k : Int}
    (h : f.gridHit? tie m q k = some d) : (d : ℚ) * 10 ^ k ≤ (m + 1 / 2) * 2 ^ q := by
  have le := le_of_grid_le (f.gridHit?_some h).1
  refine le.trans_eq ?_
  push_cast
  ring

/-- Digits that count less than a number of a size are fewer than the size says. -/
theorem lt_ten_pow_of_size {d m n : Nat} {q k : Int} (le : (d : ℚ) * 10 ^ k ≤ m * 2 ^ q)
    (size : (m : ℚ) * 2 ^ q < 10 ^ (k + n)) : d < 10 ^ n := by
  have lt := le.trans_lt size
  rw [ten_zpow_add, mul_comm] at lt
  have ltQ : (d : ℚ) < 10 ^ (n : Int) := lt_of_mul_lt_mul_left lt (ten_zpow_pos k).le
  rw [zpow_natCast] at ltQ
  exact_mod_cast ltQ

/-- A hit on a grid of so many digits. -/
theorem gridHit?_le {tie : Tie} {m d n : Nat} {q k : Int} (h : f.gridHit? tie m q k = some d)
    (size : (m : ℚ) * 2 ^ q < 10 ^ (k + n)) : d ≤ 10 ^ n := by
  have floor : 4 * m * gridScale q k / gridStep q k * gridStep q k ≤ 4 * m * gridScale q k :=
    Nat.div_mul_le_self _ _
  have below : ((4 * m * gridScale q k / gridStep q k : Nat) : ℚ) * 10 ^ k ≤ m * 2 ^ q := by
    refine (le_of_grid_le floor).trans_eq ?_
    push_cast
    ring
  exact (f.gridHit?_some h).2.trans (lt_ten_pow_of_size below size)

/-- The number cut off at a grid. -/
theorem cut_off_le (m : Nat) (q k : Int) :
    ((m * 2 ^ q.toNat * 10 ^ (-k).toNat / (2 ^ (-q).toNat * 10 ^ k.toNat) : Nat) : ℚ) * 10 ^ k ≤
      m * 2 ^ q := by
  have tens := zpow_mul_pow_toNat (b := 10) (by norm_num) k
  have twos := zpow_mul_pow_toNat (b := 2) (by norm_num) q
  rw [← le_div_iff₀ (ten_zpow_pos k)]
  refine Nat.cast_div_le.trans (le_of_eq ?_)
  push_cast
  rw [← tens, ← twos]
  field_simp

/-- Whatever grid has the first hit, the number it is on is no greater than the upper end of the
interval; each further grid has one digit more. -/
theorem firstHit_bounds (tie : Tie) {m n : Nat} {q k : Int} (fuel : Nat)
    (size : (m : ℚ) * 2 ^ q < 10 ^ (k + n)) :
    (f.firstHit tie m q fuel k).value ≤ (m + 1 / 2) * 2 ^ q ∧
      (f.firstHit tie m q fuel k).digits ≤ 10 ^ (n + fuel) := by
  induction fuel generalizing n k with
  | zero =>
      have le := cut_off_le m q k
      refine ⟨le.trans ?_, (lt_ten_pow_of_size le size).le⟩
      have := two_zpow_pos q
      linarith
  | succ fuel ih =>
      rw [firstHit]
      split
      · next d hit =>
          exact ⟨f.value_gridHit?_le hit, (f.gridHit?_le hit size).trans
            (Nat.pow_le_pow_right (by decide) (Nat.le_add_right _ _))⟩
      · have next : (m : ℚ) * 2 ^ q < 10 ^ (k - 1 + ((n + 1 : Nat) : Int)) := by
          refine size.trans_eq (congrArg _ ?_)
          push_cast
          ring
        have longer : n + 1 + fuel = n + (fuel + 1) := by omega
        rw [← longer]
        exact ih next

/-- The number as the quotient that the search begins with. -/
theorem quotient_eq (m : Nat) (q : Int) :
    ((m * 2 ^ q.toNat : Nat) : ℚ) / (2 ^ (-q).toNat : Nat) = m * 2 ^ q := by
  have twos := zpow_mul_pow_toNat (b := 2) (by norm_num) q
  push_cast
  rw [← twos]
  field_simp

theorem firstHit_leadingExponent_bounds (tie : Tie) {m : Nat} (h : 0 < m) (q : Int) (fuel : Nat) :
    let k := leadingExponent (m * 2 ^ q.toNat) (2 ^ (-q).toNat)
    (f.firstHit tie m q fuel k).value ≤ (m + 1 / 2) * 2 ^ q ∧
      (f.firstHit tie m q fuel k).digits ≤ 10 ^ (1 + fuel) := by
  have size := lt_ten_zpow_leadingExponent (Nat.mul_pos h (Nat.two_pow_pos q.toNat))
    (Nat.two_pow_pos (-q).toNat)
  rw [quotient_eq] at size
  exact f.firstHit_bounds tie fuel (by exact_mod_cast size)

/-- **A shortest decimal is no greater than the upper end of the interval.** -/
theorem value_shortest_le (tie : Tie) (m : Nat) (q : Int) :
    (f.shortest tie m q).value ≤ (m + 1 / 2) * 2 ^ q := by
  have pos := two_zpow_pos q
  rw [shortest]
  split
  · have zero : (⟨0, 0⟩ : Decimal).value = 0 := by simp [Decimal.value]
    rw [zero]
    positivity
  · next h =>
      rw [Decimal.value_stripZeros]
      exact (f.firstHit_leadingExponent_bounds tie (Nat.pos_of_ne_zero h) q _).1

/-- **A shortest decimal has hardly more digits than the format needs.** -/
theorem digits_shortest_le (tie : Tie) (m : Nat) (q : Int) :
    (f.shortest tie m q).digits ≤ 10 ^ (1 + f.sufficientDigits) := by
  rw [shortest]
  split
  · exact Nat.zero_le _
  · next h =>
      exact (Decimal.digits_stripZeros_le _ _).trans
        (f.firstHit_leadingExponent_bounds tie (Nat.pos_of_ne_zero h) q _).2

end BinaryFormat

end PreparedSql
