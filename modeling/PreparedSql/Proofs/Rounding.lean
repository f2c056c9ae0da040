import Mathlib.Algebra.Order.Field.Power
import Mathlib.Data.Rat.Cast.Order
import Mathlib.Tactic.FieldSimp
import Mathlib.Tactic.Linarith
import Mathlib.Tactic.Positivity
import Mathlib.Tactic.Ring
import PreparedSql.Number.Binary

/-!
# How far rounding goes

`BinaryFormat.nearest` rounds a positive quotient at a power of two, the unit: the quotient has at
most as many bits above the unit as the format keeps, and just as many unless the unit is the least
number of the format (`BinaryFormat.lt_unit`, `BinaryFormat.unit_le`).

* `BinaryFormat.decode_nearest`: unless the pattern is that of infinity, it stands for a number
  within half a unit of the quotient.
* `BinaryFormat.half_unit_le`: which is a small part of the quotient, where this is not below the
  normal numbers.
* `BinaryFormat.nearest_lt_infinityBits`: the pattern is not that of infinity below the midpoint
  between the largest number and the next power of two.
-/

namespace PreparedSql

/-! ### Powers of two -/

theorem two_zpow_pos (q : Int) : (0 : ℚ) < 2 ^ q := zpow_pos two_pos q

theorem two_zpow_add (a b : Int) : (2 : ℚ) ^ (a + b) = 2 ^ a * 2 ^ b := zpow_add₀ two_ne_zero a b

theorem two_zpow_natCast (n : Nat) : (2 : ℚ) ^ (n : Int) = ((2 ^ n : Nat) : ℚ) := by
  rw [zpow_natCast]
  norm_cast

/-- Dividing a quotient of naturals by a power of two. -/
theorem overPowerOfTwo_div (num den : Nat) (q : Int) :
    ((overPowerOfTwo num den q).1 : ℚ) / (overPowerOfTwo num den q).2 = num / den / 2 ^ q := by
  rcases Int.le_total 0 q with h | h
  · obtain ⟨n, rfl⟩ := Int.eq_ofNat_of_zero_le h
    simp [overPowerOfTwo, div_div]
  · obtain ⟨n, rfl⟩ : ∃ n : Nat, q = -n := ⟨(-q).toNat, by omega⟩
    simp [overPowerOfTwo]
    ring

theorem overPowerOfTwo_snd_pos {den : Nat} (h : 0 < den) (num : Nat) (q : Int) :
    0 < (overPowerOfTwo num den q).2 := Nat.mul_pos h (Nat.two_pow_pos _)

/-- Whether a quotient has at most so many bits above a power of two. -/
theorem overPowerOfTwo_lt_iff {den : Nat} (h : 0 < den) (num bits : Nat) (q : Int) :
    (overPowerOfTwo num den q).1 / (overPowerOfTwo num den q).2 < 2 ^ bits ↔
      (num : ℚ) / den < 2 ^ (bits + q) := by
  have pos := overPowerOfTwo_snd_pos h num q
  have posQ : (0 : ℚ) < (overPowerOfTwo num den q).2 := by exact_mod_cast pos
  rw [Nat.div_lt_iff_lt_mul pos, two_zpow_add, ← div_lt_iff₀ (two_zpow_pos q),
    ← overPowerOfTwo_div, div_lt_iff₀ posQ, two_zpow_natCast]
  exact_mod_cast Iff.rfl

theorem two_zpow_log2_le {n : Nat} (h : 0 < n) : (2 : ℚ) ^ (n.log2 : Int) ≤ n := by
  rw [two_zpow_natCast]
  exact_mod_cast Nat.log2_self_le (Nat.ne_of_gt h)

theorem lt_two_zpow_log2 (n : Nat) : (n : ℚ) < 2 ^ ((n.log2 : Int) + 1) := by
  have h : n < 2 ^ (n.log2 + 1) := Nat.lt_log2_self
  rw [← Nat.cast_succ, two_zpow_natCast]
  exact_mod_cast h

/-- A quotient lies within a factor of two of what the lengths of its parts say. -/
theorem log2_div_bounds {num den : Nat} (hnum : 0 < num) (hden : 0 < den) :
    (2 : ℚ) ^ ((num.log2 : Int) - den.log2 - 1) ≤ num / den ∧
      (num : ℚ) / den < 2 ^ ((num.log2 : Int) - den.log2 + 1) := by
  have pos : (0 : ℚ) < den := by exact_mod_cast hden
  constructor
  · rw [le_div_iff₀ pos]
    calc (2 : ℚ) ^ ((num.log2 : Int) - den.log2 - 1) * den
        ≤ 2 ^ ((num.log2 : Int) - den.log2 - 1) * 2 ^ ((den.log2 : Int) + 1) :=
          mul_le_mul_of_nonneg_left (lt_two_zpow_log2 den).le (two_zpow_pos _).le
      _ = 2 ^ (num.log2 : Int) := by rw [← two_zpow_add]; congr 1; ring
      _ ≤ num := two_zpow_log2_le hnum
  · rw [div_lt_iff₀ pos]
    calc (num : ℚ) < 2 ^ ((num.log2 : Int) + 1) := lt_two_zpow_log2 num
      _ = 2 ^ ((num.log2 : Int) - den.log2 + 1) * 2 ^ (den.log2 : Int) := by
          rw [← two_zpow_add]; congr 1; ring
      _ ≤ 2 ^ ((num.log2 : Int) - den.log2 + 1) * den :=
          mul_le_mul_of_nonneg_left (two_zpow_log2_le hden) (two_zpow_pos _).le

/-! ### Rounding to a natural -/

/-- The rounded quotient is no more than a half away. -/
theorem abs_roundHalfEven_sub_le (num : Nat) {den : Nat} (h : 0 < den) :
    |(roundHalfEven num den : ℚ) - num / den| ≤ 1 / 2 := by
  have pos : (0 : ℚ) < den := by exact_mod_cast h
  have parts : den * (num / den) + num % den = num := Nat.div_add_mod num den
  have near : 2 * num ≤ (2 * roundHalfEven num den + 1) * den ∧
      2 * roundHalfEven num den * den ≤ 2 * num + den := by
    have small : num % den < den := Nat.mod_lt num h
    have even : num / den % 2 = 0 ∨ num / den % 2 = 1 := Nat.mod_two_eq_zero_or_one _
    unfold roundHalfEven
    dsimp only
    generalize num / den = m at parts even ⊢
    generalize num % den = r at parts small ⊢
    split
    · constructor <;> nlinarith
    · split
      · constructor <;> nlinarith
      · rcases even with even | even <;> rw [even] <;> constructor <;> nlinarith
  have below : (2 * num : ℚ) ≤ (2 * roundHalfEven num den + 1) * den := by exact_mod_cast near.1
  have above : (2 * roundHalfEven num den * den : ℚ) ≤ 2 * num + den := by exact_mod_cast near.2
  have ratio : (num : ℚ) = num / den * den := (div_mul_cancel₀ _ pos.ne').symm
  rw [abs_le]
  constructor
  · rw [ratio] at below
    nlinarith
  · rw [ratio] at above
    nlinarith

namespace BinaryFormat

variable (f : BinaryFormat)

/-! ### The unit -/

/-- The exponent of the unit that `nearest` rounds at. -/
def unit (num den : Nat) : Int :=
  let low : Int := (num.log2 : Int) - den.log2 - f.precision
  let wide := overPowerOfTwo num den low
  max f.minExponent (if wide.1 / wide.2 < 2 ^ f.precision then low else low + 1)

/-- How many units the rounded quotient has. -/
def significand (num den : Nat) : Nat :=
  let units := overPowerOfTwo num den (f.unit num den)
  roundHalfEven units.1 units.2

theorem nearest_of_pos {num : Nat} (h : 0 < num) (den : Nat) :
    f.nearest num den = min f.infinityBits
      ((f.unit num den - f.minExponent).toNat * 2 ^ (f.precision - 1) + f.significand num den) := by
  rw [nearest, if_neg (Nat.ne_of_gt h)]
  rfl

theorem minExponent_le_unit (num den : Nat) : f.minExponent ≤ f.unit num den := le_max_left _ _

/-- The quotient has at most as many bits above the unit as the format keeps. -/
theorem lt_unit {num den : Nat} (hnum : 0 < num) (hden : 0 < den) :
    (num : ℚ) / den < 2 ^ (f.precision + f.unit num den) := by
  have most := (log2_div_bounds hnum hden).2
  have fits := overPowerOfTwo_lt_iff hden num f.precision
    ((num.log2 : Int) - den.log2 - f.precision)
  refine lt_of_lt_of_le ?_ (zpow_le_zpow_right₀ one_le_two (add_le_add_right (le_max_right _ _) _))
  split
  · next h => exact fits.1 h
  · refine lt_of_lt_of_eq most (congrArg _ ?_)
    ring

/-- The quotient has as many bits above the unit as the format keeps, unless the unit is the least
number. -/
theorem unit_le {num den : Nat} (hnum : 0 < num) (hden : 0 < den)
    (h : f.unit num den ≠ f.minExponent) :
    (2 : ℚ) ^ ((f.precision : Int) - 1 + f.unit num den) ≤ num / den := by
  have least := (log2_div_bounds hnum hden).1
  have fits := overPowerOfTwo_lt_iff hden num f.precision
    ((num.log2 : Int) - den.log2 - f.precision)
  have unit := (max_choice _ _).resolve_left h
  rw [BinaryFormat.unit, unit]
  split
  · refine le_of_eq_of_le (congrArg _ ?_) least
    ring
  · next large =>
      refine le_of_eq_of_le (congrArg _ ?_) (not_lt.1 (mt fits.2 large))
      ring

/-! ### The significand -/

theorem abs_significand_sub_le {den : Nat} (hden : 0 < den) (num : Nat) :
    |(f.significand num den : ℚ) - num / den / 2 ^ f.unit num den| ≤ 1 / 2 := by
  rw [← overPowerOfTwo_div]
  exact abs_roundHalfEven_sub_le _ (overPowerOfTwo_snd_pos hden num _)

theorem significand_le {num den : Nat} (hnum : 0 < num) (hden : 0 < den) :
    f.significand num den ≤ 2 ^ f.precision := by
  have near := (abs_le.1 (f.abs_significand_sub_le hden num)).2
  have lt := f.lt_unit hnum hden
  rw [two_zpow_add, ← div_lt_iff₀ (two_zpow_pos _), two_zpow_natCast] at lt
  have half : (f.significand num den : ℚ) < (2 ^ f.precision : Nat) + 1 := by linarith
  have : f.significand num den < 2 ^ f.precision + 1 := by exact_mod_cast half
  omega

theorem le_significand {num den : Nat} (hp : 0 < f.precision) (hnum : 0 < num) (hden : 0 < den)
    (h : f.unit num den ≠ f.minExponent) :
    2 ^ (f.precision - 1) ≤ f.significand num den := by
  have near := (abs_le.1 (f.abs_significand_sub_le hden num)).1
  have le := f.unit_le hnum hden h
  have bits : (f.precision : Int) - 1 = (f.precision - 1 : Nat) := by omega
  rw [two_zpow_add, ← le_div_iff₀ (two_zpow_pos _), bits, two_zpow_natCast] at le
  have half : ((2 ^ (f.precision - 1) : Nat) : ℚ) < f.significand num den + 1 := by linarith
  have : 2 ^ (f.precision - 1) < f.significand num den + 1 := by exact_mod_cast half
  omega

/-! ### The pattern -/

theorem two_pow_precision (hp : 0 < f.precision) :
    2 ^ f.precision = 2 * 2 ^ (f.precision - 1) := by
  rw [← Nat.pow_succ']
  congr 1
  omega

/-- A pattern by its exponent field and its fraction. -/
theorem decode_add (hp : 0 < f.precision) {e fraction : Nat}
    (hf : fraction < 2 ^ (f.precision - 1))
    (finite : e * 2 ^ (f.precision - 1) + fraction < f.infinityBits) :
    f.decode (e * 2 ^ (f.precision - 1) + fraction) =
      if e = 0 then .finite false fraction f.minExponent
      else .finite false (fraction + 2 ^ (f.precision - 1)) (f.minExponent + e - 1) := by
  have pos : 0 < 2 ^ (f.precision - 1) := Nat.two_pow_pos _
  have le : e < 2 ^ f.exponentBits - 1 := by
    rw [infinityBits] at finite
    exact Nat.lt_of_mul_lt_mul_right (Nat.lt_of_le_of_lt (Nat.le_add_right _ _) finite)
  have sign : f.infinityBits ≤ f.signBit := by
    rw [infinityBits, signBit, show f.precision + f.exponentBits - 1 =
      f.exponentBits + (f.precision - 1) by omega, Nat.pow_add]
    exact Nat.mul_le_mul_right _ (Nat.sub_le _ _)
  have low : (e * 2 ^ (f.precision - 1) + fraction) % 2 ^ (f.precision - 1) = fraction :=
    Nat.mul_add_mod_of_lt hf
  have high : (e * 2 ^ (f.precision - 1) + fraction) / 2 ^ (f.precision - 1) %
      2 ^ f.exponentBits = e := by
    rw [Nat.add_comm, Nat.add_mul_div_right _ _ pos, Nat.div_eq_of_lt hf, Nat.zero_add]
    exact Nat.mod_eq_of_lt (by omega)
  have positive : ¬ f.signBit ≤ e * 2 ^ (f.precision - 1) + fraction := by omega
  rw [decode, low, high, if_neg (by omega)]
  simp only [positive, decide_false]

/-- The exponent of the unit of the largest numbers, counted from the least one. -/
def topExponent : Nat := 2 ^ f.exponentBits - 3

/-- A finite number has no more bits than the format keeps, and its unit is one of the format. -/
theorem bounds_of_decode (hp : 0 < f.precision) {bits m : Nat} {s : Bool} {q : Int}
    (h : f.decode bits = .finite s m q) :
    m < 2 ^ f.precision ∧ q ≤ f.minExponent + f.topExponent := by
  rw [topExponent]
  have double := f.two_pow_precision hp
  have fraction : bits % 2 ^ (f.precision - 1) < 2 ^ (f.precision - 1) :=
    Nat.mod_lt _ (Nat.two_pow_pos _)
  have exponent : bits / 2 ^ (f.precision - 1) % 2 ^ f.exponentBits < 2 ^ f.exponentBits :=
    Nat.mod_lt _ (Nat.two_pow_pos _)
  rw [decode] at h
  split at h
  · split at h <;> cases h
  · split at h
    · obtain ⟨-, rfl, rfl⟩ := BinaryNumber.finite.inj h
      omega
    · obtain ⟨-, rfl, rfl⟩ := BinaryNumber.finite.inj h
      omega

/-- The pattern of so many units, which carries into the exponent field where the significand has
one bit more than the format keeps. -/
theorem decode_units (hp : 0 < f.precision) {e r : Nat} (large : e ≠ 0 → 2 ^ (f.precision - 1) ≤ r)
    (le : r ≤ 2 ^ f.precision) (finite : e * 2 ^ (f.precision - 1) + r < f.infinityBits) :
    ∃ m q, f.decode (e * 2 ^ (f.precision - 1) + r) = .finite false m q ∧
      (m : ℚ) * 2 ^ q = r * 2 ^ (f.minExponent + e) := by
  have double := f.two_pow_precision hp
  rw [double] at le
  generalize hP : 2 ^ (f.precision - 1) = P at *
  -- with fewer bits than that there is no exponent field; with one more there is a carry into it
  rcases Nat.lt_or_ge r P with subnormal | normal
  · have zero : e = 0 := by
      by_contra h
      exact absurd (large h) (by omega)
    subst hP zero
    exact ⟨_, _, (f.decode_add hp subnormal finite).trans (if_pos rfl), by simp⟩
  · rcases Nat.lt_or_ge r (2 * P) with small | carried
    · have parts : e * P + r = (e + 1) * P + (r - P) := by rw [Nat.succ_mul]; omega
      rw [parts] at finite ⊢
      subst hP
      refine ⟨_, _, (f.decode_add hp (by omega) finite).trans (if_neg (Nat.succ_ne_zero e)), ?_⟩
      rw [Nat.sub_add_cancel normal]
      push_cast
      congr 2
      ring
    · have parts : e * P + r = (e + 2) * P + 0 := by rw [Nat.add_mul]; omega
      obtain rfl : r = 2 * P := by omega
      rw [parts] at finite ⊢
      subst hP
      refine ⟨_, _, (f.decode_add hp (Nat.two_pow_pos _) finite).trans
        (if_neg (Nat.succ_ne_zero _)), ?_⟩
      have next : f.minExponent + ((e + 2 : Nat) : Int) - 1 = f.minExponent + e + 1 := by
        push_cast
        ring
      rw [next, two_zpow_add _ 1, zpow_one]
      push_cast
      ring

/-- **Rounding is off by at most half a unit**, unless the pattern is that of infinity. -/
theorem decode_nearest (hp : 0 < f.precision) {num den : Nat} (hnum : 0 < num) (hden : 0 < den)
    (finite : f.nearest num den < f.infinityBits) :
    ∃ m q, f.decode (f.nearest num den) = .finite false m q ∧
      |(m : ℚ) * 2 ^ q - num / den| ≤ 2 ^ f.unit num den / 2 := by
  have field : (f.minExponent + ((f.unit num den - f.minExponent).toNat : Int)) =
      f.unit num den := by
    have := f.minExponent_le_unit num den
    omega
  rw [f.nearest_of_pos hnum] at finite ⊢
  rw [min_lt_iff] at finite
  replace finite := finite.resolve_left (lt_irrefl _)
  rw [min_eq_right finite.le]
  have large : (f.unit num den - f.minExponent).toNat ≠ 0 →
      2 ^ (f.precision - 1) ≤ f.significand num den := fun h =>
    f.le_significand hp hnum hden (by omega)
  obtain ⟨m, q, decoded, value⟩ :=
    f.decode_units hp large (f.significand_le hnum hden) finite
  refine ⟨m, q, decoded, ?_⟩
  have pos := two_zpow_pos (f.unit num den)
  have scaled : (m : ℚ) * 2 ^ q - num / den =
      (f.significand num den - num / den / 2 ^ f.unit num den) * 2 ^ f.unit num den := by
    rw [value, field, sub_mul, div_mul_cancel₀ _ pos.ne']
  calc |(m : ℚ) * 2 ^ q - num / den|
      = |(f.significand num den : ℚ) - num / den / 2 ^ f.unit num den| * 2 ^ f.unit num den := by
        rw [scaled, abs_mul, abs_of_pos pos]
    _ ≤ 1 / 2 * 2 ^ f.unit num den :=
        mul_le_mul_of_nonneg_right (f.abs_significand_sub_le hden num) pos.le
    _ = 2 ^ f.unit num den / 2 := by ring

/-- Half a unit of a quotient that is not below the normal numbers. -/
theorem half_unit_le {num den : Nat} (hnum : 0 < num) (hden : 0 < den)
    (normal : (2 : ℚ) ^ ((f.precision : Int) - 1 + f.minExponent) ≤ num / den) :
    (2 : ℚ) ^ f.unit num den / 2 ≤ num / den / 2 ^ f.precision := by
  have bits : (2 : ℚ) ^ ((f.precision : Int) - 1 + f.unit num den) ≤ num / den := by
    by_cases h : f.unit num den = f.minExponent
    · rwa [h]
    · exact f.unit_le hnum hden h
  rw [le_div_iff₀ (by positivity)]
  refine le_of_eq_of_le ?_ bits
  rw [two_zpow_add, sub_eq_add_neg, two_zpow_add, zpow_natCast, zpow_neg_one]
  ring

/-- Half a unit is no more than the quotient and the least number together. -/
theorem half_unit_le_add (hp : 0 < f.precision) {num den : Nat} (hnum : 0 < num) (hden : 0 < den) :
    (2 : ℚ) ^ f.unit num den / 2 ≤ num / den + 2 ^ f.minExponent := by
  have quotient : (0 : ℚ) ≤ num / den := by positivity
  have least := two_zpow_pos f.minExponent
  by_cases h : f.unit num den = f.minExponent
  · rw [h]
    linarith
  · have bits := f.unit_le hnum hden h
    have le : (2 : ℚ) ^ f.unit num den ≤ 2 ^ ((f.precision : Int) - 1 + f.unit num den) :=
      zpow_le_zpow_right₀ one_le_two (by omega)
    have pos := two_zpow_pos (f.unit num den)
    linarith

theorem infinityBits_eq (he : 2 ≤ f.exponentBits) :
    f.infinityBits = (f.topExponent + 2) * 2 ^ (f.precision - 1) := by
  have wide : 2 ^ 2 ≤ 2 ^ f.exponentBits := Nat.pow_le_pow_right (by decide) he
  rw [infinityBits, topExponent]
  congr 1
  omega

/-- **No infinity** below the midpoint between the largest number and the next power of two. -/
theorem nearest_lt_infinityBits (hp : 0 < f.precision) (he : 2 ≤ f.exponentBits) {num den : Nat}
    (hnum : 0 < num) (hden : 0 < den)
    (h : (num : ℚ) / den < (2 ^ f.precision - 1 / 2) * 2 ^ (f.minExponent + f.topExponent)) :
    f.nearest num den < f.infinityBits := by
  have top := f.infinityBits_eq he
  have double := f.two_pow_precision hp
  have pos : 0 < 2 ^ (f.precision - 1) := Nat.two_pow_pos _
  have le := f.significand_le hnum hden
  have unit := f.minExponent_le_unit num den
  have bound : (num : ℚ) / den < 2 ^ (f.precision + (f.minExponent + f.topExponent)) := by
    refine lt_of_lt_of_le h ?_
    rw [two_zpow_add f.precision, zpow_natCast]
    exact mul_le_mul_of_nonneg_right (by linarith) (two_zpow_pos _).le
  rw [f.nearest_of_pos hnum, min_lt_iff, top]
  right
  rcases Nat.lt_trichotomy (f.unit num den - f.minExponent).toNat f.topExponent with lt | eq | gt
  · have carried := Nat.mul_le_mul_right (2 ^ (f.precision - 1)) (Nat.succ_le_of_lt lt)
    rw [Nat.succ_mul] at carried
    rw [Nat.add_mul]
    omega
  · -- at the top the significand has no room for one bit more
    have at_top : f.minExponent + f.topExponent = f.unit num den := by omega
    rw [at_top, ← div_lt_iff₀ (two_zpow_pos _)] at h
    have near := (abs_le.1 (f.abs_significand_sub_le hden num)).2
    have small : (f.significand num den : ℚ) < (2 ^ f.precision : Nat) := by
      push_cast
      linarith
    have : f.significand num den < 2 ^ f.precision := by exact_mod_cast small
    rw [eq, Nat.add_mul]
    omega
  · have bits := f.unit_le hnum hden (by omega)
    have above : (2 : ℚ) ^ (f.precision + (f.minExponent + f.topExponent)) ≤
        2 ^ ((f.precision : Int) - 1 + f.unit num den) :=
      zpow_le_zpow_right₀ one_le_two (by omega)
    exact absurd bound (not_lt.2 (above.trans bits))

end BinaryFormat

end PreparedSql
