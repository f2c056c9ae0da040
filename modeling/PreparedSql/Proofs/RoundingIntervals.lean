import PreparedSql.Proofs.Rounding

/-!
# What is rounded to a number

The quotients that are rounded to `m · 2 ^ q` form an interval around it.  It reaches half a unit
up, and half a unit down unless the numbers below are twice as dense; its ends belong to it where
`m` is even.  The intervals of the numbers of a format do not meet (`RoundsTo.unique`).

* `BinaryFormat.roundsTo_nearest`: a quotient lies in the interval of the number it is rounded to.
* `BinaryFormat.nearest_eq_pattern_iff`: it is rounded to a number exactly where it lies in the
  interval of that number.
-/

namespace PreparedSql

/-- In the middle between two naturals the even one is taken. -/
theorem even_roundHalfEven {num den : Nat} (h : 0 < den)
    (tie : |(roundHalfEven num den : ℚ) - num / den| = 1 / 2) : roundHalfEven num den % 2 = 0 := by
  have pos : (0 : ℚ) < den := by exact_mod_cast h
  have parts : den * (num / den) + num % den = num := Nat.div_add_mod num den
  have small : num % den < den := Nat.mod_lt num h
  have sides : 2 * roundHalfEven num den * den = 2 * num + den ∨
      2 * roundHalfEven num den * den + den = 2 * num := by
    have ratio : (num : ℚ) = num / den * den := (div_mul_cancel₀ _ pos.ne').symm
    rcases abs_eq (by norm_num : (0 : ℚ) ≤ 1 / 2) |>.1 tie with above | below
    · left
      have : (2 * roundHalfEven num den * den : ℚ) = 2 * num + den := by
        rw [ratio, eq_add_of_sub_eq above]
        ring
      exact_mod_cast this
    · right
      have : (2 * roundHalfEven num den * den + den : ℚ) = 2 * num := by
        rw [ratio, eq_add_of_sub_eq below]
        ring
      exact_mod_cast this
  unfold roundHalfEven at sides ⊢
  dsimp only at sides ⊢
  generalize num / den = m at parts sides ⊢
  generalize num % den = r at parts small sides ⊢
  have here : 2 * m * den = 2 * (den * m) := by ring
  have next_one : 2 * (m + 1) * den = 2 * (den * m) + 2 * den := by ring
  split at sides
  · omega
  · split at sides
    · omega
    · rw [if_neg ‹_›, if_neg ‹_›]
      omega

namespace BinaryFormat

variable (f : BinaryFormat)

/-! ### Numbers of a format -/

/-- A number has no more bits than the format keeps, and just as many above the least exponent. -/
structure Canonical (m : Nat) (q : Int) : Prop where
  lt     : m < 2 ^ f.precision
  least  : f.minExponent ≤ q
  normal : q ≠ f.minExponent → 2 ^ (f.precision - 1) ≤ m

/-- Patterns stand for such numbers. -/
theorem canonical_of_decode (hp : 0 < f.precision) {bits m : Nat} {s : Bool} {q : Int}
    (h : f.decode bits = .finite s m q) : f.Canonical m q := by
  refine ⟨(f.bounds_of_decode hp h).1, ?_, ?_⟩ <;> rw [decode] at h
  · split at h
    · split at h <;> cases h
    · split at h
      · obtain ⟨-, -, rfl⟩ := BinaryNumber.finite.inj h
        exact Int.le_refl _
      · obtain ⟨-, -, rfl⟩ := BinaryNumber.finite.inj h
        omega
  · intro above
    split at h
    · split at h <;> cases h
    · split at h
      · obtain ⟨-, -, rfl⟩ := BinaryNumber.finite.inj h
        exact absurd rfl above
      · obtain ⟨-, rfl, -⟩ := BinaryNumber.finite.inj h
        omega

/-! ### The interval of a number -/

/-- How many units the interval reaches down. -/
def lowerReach (m : Nat) (q : Int) : ℚ :=
  if m = 2 ^ (f.precision - 1) ∧ f.minExponent < q then 1 / 4 else 1 / 2

theorem lowerReach_le (m : Nat) (q : Int) : f.lowerReach m q ≤ 1 / 2 := by
  rw [lowerReach]
  split <;> norm_num

theorem lowerReach_pos (m : Nat) (q : Int) : 0 < f.lowerReach m q := by
  rw [lowerReach]
  split <;> norm_num

/-- `v` lies in the interval of `m · 2 ^ q`. -/
structure RoundsTo (v : ℚ) (m : Nat) (q : Int) : Prop where
  low       : (m - f.lowerReach m q) * 2 ^ q ≤ v
  high      : v ≤ (m + 1 / 2) * 2 ^ q
  even_low  : (m - f.lowerReach m q) * 2 ^ q = v → m % 2 = 0
  even_high : v = (m + 1 / 2) * 2 ^ q → m % 2 = 0

variable {f}

/-- What lies between two numbers of the interval belongs to it. -/
theorem RoundsTo.between {v w x : ℚ} {m : Nat} {q : Int} (hv : f.RoundsTo v m q)
    (hw : f.RoundsTo w m q) (le : v ≤ x) (ge : x ≤ w) : f.RoundsTo x m q where
  low       := hv.low.trans le
  high      := ge.trans hw.high
  even_low  := fun e => hv.even_low (le_antisymm hv.low (le.trans e.ge))
  even_high := fun e => hw.even_high (le_antisymm hw.high (e.ge.trans ge))

/-- Between the ends all numbers belong to the interval. -/
theorem roundsTo_of_lt {v : ℚ} {m : Nat} {q : Int} (low : (m - f.lowerReach m q) * 2 ^ q < v)
    (high : v < (m + 1 / 2) * 2 ^ q) : f.RoundsTo v m q :=
  ⟨low.le, high.le, fun e => absurd e low.ne, fun e => absurd e high.ne⟩

theorem low_lt_self (m : Nat) (q : Int) : (m - f.lowerReach m q) * 2 ^ q < (m : ℚ) * 2 ^ q := by
  have reach := f.lowerReach_pos m q
  exact mul_lt_mul_of_pos_right (by linarith) (two_zpow_pos q)

theorem self_lt_high (m : Nat) (q : Int) : (m : ℚ) * 2 ^ q < (m + 1 / 2) * 2 ^ q :=
  mul_lt_mul_of_pos_right (by linarith) (two_zpow_pos q)

theorem roundsTo_self (m : Nat) (q : Int) : f.RoundsTo (m * 2 ^ q) m q :=
  roundsTo_of_lt (low_lt_self m q) (self_lt_high m q)

/-- A unit of a greater exponent is at least two of the smaller. -/
theorem two_mul_zpow_le {q r : Int} (h : q < r) : 2 * (2 : ℚ) ^ q ≤ 2 ^ r := by
  have next : 2 * (2 : ℚ) ^ q = 2 ^ (q + 1) := by rw [two_zpow_add, zpow_one, mul_comm]
  rw [next]
  exact zpow_le_zpow_right₀ one_le_two h

/-- The interval of a number lies below the intervals of the numbers with a greater exponent. -/
theorem RoundsTo.exponent_le (hp : 0 < f.precision) {v : ℚ} {m n : Nat} {q r : Int}
    (cm : f.Canonical m q) (cn : f.Canonical n r) (hm : f.RoundsTo v m q)
    (hn : f.RoundsTo v n r) : r ≤ q := by
  by_contra lt
  rw [Int.not_le] at lt
  have units := two_mul_zpow_le lt
  have pos := two_zpow_pos q
  have double := f.two_pow_precision hp
  have normal := cn.normal (by have := cm.least; omega)
  have bits : (m : ℚ) + 1 ≤ 2 * 2 ^ (f.precision - 1) := by
    have := cm.lt
    rw [double] at this
    exact_mod_cast Nat.succ_le_of_lt this
  have large : (1 : ℚ) ≤ 2 ^ (f.precision - 1) := one_le_pow₀ one_le_two
  have twice {x : ℚ} (hx : 0 ≤ x) : 2 * x * 2 ^ q ≤ x * 2 ^ r := by
    calc 2 * x * 2 ^ q = x * (2 * 2 ^ q) := by ring
      _ ≤ x * 2 ^ r := mul_le_mul_of_nonneg_left units hx
  rcases Nat.eq_or_lt_of_le normal with least | more
  · -- the ends meet if the smaller number is the last one before the exponent changes, which is odd
    have reach : f.lowerReach n r = 1 / 4 := if_pos ⟨least.symm, by have := cm.least; omega⟩
    have low := hn.low
    rw [reach, ← least] at low
    push_cast at low
    have up : (2 * 2 ^ (f.precision - 1) - 1 / 2) * (2 : ℚ) ^ q ≤ v := by
      calc (2 * 2 ^ (f.precision - 1) - 1 / 2) * (2 : ℚ) ^ q
          = 2 * (2 ^ (f.precision - 1) - 1 / 4) * 2 ^ q := by ring
        _ ≤ (2 ^ (f.precision - 1) - 1 / 4) * 2 ^ r := twice (by linarith)
        _ ≤ v := low
    have above := le_of_mul_le_mul_right (up.trans hm.high) pos
    have last : (m : ℚ) + 1 / 2 = 2 * 2 ^ (f.precision - 1) - 1 / 2 := by linarith
    have even := hm.even_high (le_antisymm hm.high (last ▸ up))
    have odd : m + 1 = 2 * 2 ^ (f.precision - 1) := by
      have : (m : ℚ) + 1 = 2 * 2 ^ (f.precision - 1) := by linarith
      exact_mod_cast this
    omega
  · have reach := f.lowerReach_le n r
    have above : (2 : ℚ) ^ (f.precision - 1) + 1 ≤ n := by exact_mod_cast Nat.succ_le_of_lt more
    have up : 2 * (2 ^ (f.precision - 1) + 1 / 2) * (2 : ℚ) ^ q ≤ v := by
      calc 2 * (2 ^ (f.precision - 1) + 1 / 2) * (2 : ℚ) ^ q
          ≤ (2 ^ (f.precision - 1) + 1 / 2) * 2 ^ r := twice (by linarith)
        _ ≤ (n - f.lowerReach n r) * 2 ^ r :=
          mul_le_mul_of_nonneg_right (by linarith) (two_zpow_pos r).le
        _ ≤ v := hn.low
    have beyond := le_of_mul_le_mul_right (up.trans hm.high) pos
    linarith

/-- The intervals of numbers with one exponent do not meet. -/
theorem RoundsTo.significand_le {v : ℚ} {m n : Nat} {q : Int} (hm : f.RoundsTo v m q)
    (hn : f.RoundsTo v n q) : n ≤ m := by
  by_contra lt
  rw [Nat.not_le] at lt
  have pos := two_zpow_pos q
  have reach := f.lowerReach_le n q
  have next : (m : ℚ) + 1 ≤ n := by exact_mod_cast Nat.succ_le_of_lt lt
  have gap : ((m : ℚ) + 1 / 2) * 2 ^ q ≤ (n - f.lowerReach n q) * 2 ^ q :=
    mul_le_mul_of_nonneg_right (by linarith) pos.le
  have even_m := hm.even_high (le_antisymm hm.high (gap.trans hn.low))
  have even_n := hn.even_low (le_antisymm hn.low (hm.high.trans gap))
  have meet : ((m : ℚ) + 1 / 2) * 2 ^ q = (n - f.lowerReach n q) * 2 ^ q :=
    le_antisymm gap (hn.low.trans hm.high)
  have ends : (m : ℚ) + 1 / 2 = n - f.lowerReach n q := mul_right_cancel₀ pos.ne' meet
  have succ : (n : ℚ) ≤ m + 1 := by linarith
  have : n ≤ m + 1 := by exact_mod_cast succ
  omega

/-- **The intervals do not meet.** -/
theorem RoundsTo.unique (hp : 0 < f.precision) {v : ℚ} {m n : Nat} {q r : Int}
    (cm : f.Canonical m q) (cn : f.Canonical n r) (hm : f.RoundsTo v m q)
    (hn : f.RoundsTo v n r) : m = n ∧ q = r := by
  obtain rfl : q = r :=
    le_antisymm (hn.exponent_le hp cn cm hm) (hm.exponent_le hp cm cn hn)
  exact ⟨le_antisymm (hn.significand_le hm) (hm.significand_le hn), rfl⟩

/-- A quotient that is rounded to a number of the format does not overflow. -/
theorem RoundsTo.lt_overflow (hp : 0 < f.precision) {v : ℚ} {m : Nat} {q : Int}
    (canonical : f.Canonical m q) (top : q ≤ f.minExponent + f.topExponent)
    (h : f.RoundsTo v m q) :
    v < (2 ^ f.precision - 1 / 2) * 2 ^ (f.minExponent + f.topExponent) := by
  have bits : (m : ℚ) + 1 ≤ 2 ^ f.precision := by exact_mod_cast Nat.succ_le_of_lt canonical.lt
  have one : (1 : ℚ) ≤ 2 ^ f.precision := one_le_pow₀ one_le_two
  have units : (2 : ℚ) ^ q ≤ 2 ^ (f.minExponent + f.topExponent) :=
    zpow_le_zpow_right₀ one_le_two top
  have pos := two_zpow_pos q
  have le : ((m : ℚ) + 1 / 2) * 2 ^ q ≤ (2 ^ f.precision - 1 / 2) * 2 ^ q :=
    mul_le_mul_of_nonneg_right (by linarith) pos.le
  have topmost : (2 ^ f.precision - 1 / 2) * (2 : ℚ) ^ q ≤
      (2 ^ f.precision - 1 / 2) * 2 ^ (f.minExponent + f.topExponent) :=
    mul_le_mul_of_nonneg_left units (by linarith)
  refine lt_of_le_of_ne (h.high.trans (le.trans topmost)) fun e => ?_
  -- only the last number reaches so far, and it is odd
  have ends : v = (m + 1 / 2) * 2 ^ q := le_antisymm h.high ((le.trans topmost).trans e.ge)
  have even := h.even_high ends
  have last : (m : ℚ) + 1 / 2 = 2 ^ f.precision - 1 / 2 :=
    mul_right_cancel₀ pos.ne' (le_antisymm le (topmost.trans (e.ge.trans ends.le)))
  have odd : m + 1 = 2 ^ f.precision := by
    have : (m : ℚ) + 1 = 2 ^ f.precision := by linarith
    exact_mod_cast this
  have double := f.two_pow_precision hp
  omega

/-! ### Rounding -/

variable (f)

/-- The pattern of `m · 2 ^ q`. -/
def pattern (m : Nat) (q : Int) : Nat :=
  (q - f.minExponent).toNat * 2 ^ (f.precision - 1) + m

theorem exponent_le_of_pattern_eq (hp : 0 < f.precision) {m n : Nat} {q r : Int}
    (cm : f.Canonical m q) (cn : f.Canonical n r) (same : f.pattern m q = f.pattern n r) :
    r ≤ q := by
  by_contra lt
  have least := cm.least
  have normal := cn.normal (by omega)
  have bits := cm.lt
  have fields := Nat.mul_le_mul_right (2 ^ (f.precision - 1))
    (show (q - f.minExponent).toNat + 1 ≤ (r - f.minExponent).toNat by omega)
  rw [f.two_pow_precision hp] at bits
  rw [pattern, pattern] at same
  rw [Nat.add_mul] at fields
  omega

/-- Numbers have patterns of their own. -/
theorem pattern_inj (hp : 0 < f.precision) {m n : Nat} {q r : Int} (cm : f.Canonical m q)
    (cn : f.Canonical n r) (same : f.pattern m q = f.pattern n r) : m = n ∧ q = r := by
  obtain rfl : q = r := le_antisymm (f.exponent_le_of_pattern_eq hp cn cm same.symm)
    (f.exponent_le_of_pattern_eq hp cm cn same)
  exact ⟨Nat.add_left_cancel same, rfl⟩

theorem pattern_lt_infinityBits (hp : 0 < f.precision) (he : 2 ≤ f.exponentBits) {m : Nat} {q : Int}
    (canonical : f.Canonical m q) (top : q ≤ f.minExponent + f.topExponent) :
    f.pattern m q < f.infinityBits := by
  have bits := canonical.lt
  have place : (q - f.minExponent).toNat ≤ f.topExponent := by omega
  have fields := Nat.mul_le_mul_right (2 ^ (f.precision - 1)) place
  rw [f.two_pow_precision hp] at bits
  rw [f.infinityBits_eq he, pattern, Nat.add_mul]
  omega

/-- A finite pattern has one of the exponents of the format. -/
theorem exponent_le_of_pattern_lt (he : 2 ≤ f.exponentBits) {m : Nat} {q : Int}
    (canonical : f.Canonical m q) (finite : f.pattern m q < f.infinityBits) :
    q ≤ f.minExponent + f.topExponent := by
  by_contra above
  have normal := canonical.normal (by omega)
  have fields := Nat.mul_le_mul_right (2 ^ (f.precision - 1))
    (show f.topExponent + 1 ≤ (q - f.minExponent).toNat by omega)
  rw [f.infinityBits_eq he, pattern] at finite
  rw [Nat.add_mul] at finite fields
  omega

/-- The pattern of a number stands for it. -/
theorem decode_pattern (hp : 0 < f.precision) (he : 2 ≤ f.exponentBits) {m : Nat} {q : Int}
    (canonical : f.Canonical m q) (top : q ≤ f.minExponent + f.topExponent) :
    f.decode (f.pattern m q) = .finite false m q := by
  have least := canonical.least
  have place : f.minExponent + ((q - f.minExponent).toNat : Int) = q := by omega
  obtain ⟨n, r, decoded, value⟩ := f.decode_units hp
    (fun above => canonical.normal (by omega)) canonical.lt.le
    (f.pattern_lt_infinityBits hp he canonical top)
  rw [place] at value
  have self : f.RoundsTo (n * 2 ^ r) m q := value ▸ roundsTo_self m q
  obtain ⟨rfl, rfl⟩ := self.unique hp canonical (f.canonical_of_decode hp decoded)
    (roundsTo_self n r)
  exact decoded

/-- The sign does not change the rest. -/
theorem decode_signed (hp : 0 < f.precision) {bits m : Nat} {q : Int} (small : bits < f.signBit)
    (h : f.decode bits = .finite false m q) (negative : Bool) :
    f.decode (f.signed negative bits) = .finite negative m q := by
  cases negative with
  | false => exact h
  | true =>
      have sign : f.signBit = 2 ^ f.exponentBits * 2 ^ (f.precision - 1) := by
        rw [signBit, ← Nat.pow_add]
        congr 1
        omega
      have low : (f.signBit + bits) % 2 ^ (f.precision - 1) = bits % 2 ^ (f.precision - 1) := by
        rw [sign, Nat.mul_add_mod_self_right]
      have high : (f.signBit + bits) / 2 ^ (f.precision - 1) % 2 ^ f.exponentBits =
          bits / 2 ^ (f.precision - 1) % 2 ^ f.exponentBits := by
        rw [sign, Nat.mul_comm, Nat.mul_add_div (Nat.two_pow_pos _), Nat.add_mod_left]
      have negative : f.signBit ≤ f.signBit + bits := Nat.le_add_right _ _
      have positive : ¬ f.signBit ≤ bits := Nat.not_le.2 small
      rw [decode] at h
      simp only [positive, decide_false] at h
      rw [signed, if_pos rfl, decode, low, high]
      simp only [negative, decide_true]
      split at h
      · split at h <;> cases h
      · next finite =>
          rw [if_neg finite]
          split at h
          · next zero =>
              obtain ⟨-, rfl, rfl⟩ := BinaryNumber.finite.inj h
              rw [if_pos zero]
          · next normal =>
              obtain ⟨-, rfl, rfl⟩ := BinaryNumber.finite.inj h
              rw [if_neg normal]

variable {f} in
/-- So many units are the nearest ones. -/
theorem roundsTo_units {w : ℚ} {m : Nat} {q : Int} (near : |(m : ℚ) - w| ≤ 1 / 2)
    (tie : |(m : ℚ) - w| = 1 / 2 → m % 2 = 0)
    (bits : f.minExponent < q → (2 : ℚ) ^ (f.precision - 1) ≤ w) : f.RoundsTo (w * 2 ^ q) m q := by
  have pos := two_zpow_pos q
  obtain ⟨up, down⟩ := abs_le.1 near
  have low : (m : ℚ) - f.lowerReach m q ≤ w ∧ (m - f.lowerReach m q = w → m % 2 = 0) := by
    rw [lowerReach]
    split
    · next h =>
        have least : (m : ℚ) ≤ w := by
          rw [h.1]
          exact_mod_cast bits h.2
        exact ⟨by linarith, fun e => by linarith⟩
    · refine ⟨by linarith, fun e => tie ?_⟩
      rw [← e, sub_sub_cancel]
      norm_num
  refine ⟨mul_le_mul_of_nonneg_right low.1 pos.le, ?_, fun e => ?_, fun e => ?_⟩
  · exact mul_le_mul_of_nonneg_right (by linarith) pos.le
  · exact low.2 (mul_right_cancel₀ pos.ne' e)
  · refine tie ?_
    rw [mul_right_cancel₀ pos.ne' e, sub_add_cancel_left, abs_neg]
    norm_num

variable {f} in
/-- One bit more than the format keeps carries into the exponent. -/
theorem roundsTo_carried (hp : 2 ≤ f.precision) {w : ℚ} {q : Int} (least : f.minExponent ≤ q)
    (near : 2 ^ f.precision - 1 / 2 ≤ w) (lt : w < 2 ^ f.precision) :
    f.RoundsTo (w * 2 ^ q) (2 ^ (f.precision - 1)) (q + 1) := by
  have pos := two_zpow_pos q
  have reach : f.lowerReach (2 ^ (f.precision - 1)) (q + 1) = 1 / 4 := if_pos ⟨rfl, by omega⟩
  have double : (2 : ℚ) ^ f.precision = 2 * 2 ^ (f.precision - 1) := by
    exact_mod_cast f.two_pow_precision (by omega)
  have even : 2 ^ (f.precision - 1) % 2 = 0 := by
    rw [show f.precision - 1 = f.precision - 2 + 1 by omega, Nat.pow_succ]
    omega
  rw [double] at near lt
  refine ⟨?_, ?_, fun _ => even, fun _ => even⟩
  · rw [reach, two_zpow_add, zpow_one]
    push_cast
    calc ((2 : ℚ) ^ (f.precision - 1) - 1 / 4) * (2 ^ q * 2)
        = (2 * 2 ^ (f.precision - 1) - 1 / 2) * 2 ^ q := by ring
      _ ≤ w * 2 ^ q := mul_le_mul_of_nonneg_right near pos.le
  · rw [two_zpow_add, zpow_one]
    push_cast
    calc w * 2 ^ q ≤ (2 * 2 ^ (f.precision - 1) + 1) * 2 ^ q :=
          mul_le_mul_of_nonneg_right (by linarith) pos.le
      _ = ((2 : ℚ) ^ (f.precision - 1) + 1 / 2) * (2 ^ q * 2) := by ring

theorem nearest_le_infinityBits (num den : Nat) : f.nearest num den ≤ f.infinityBits := by
  rcases Nat.eq_zero_or_pos num with rfl | pos
  · exact Nat.zero_le _
  · rw [f.nearest_of_pos pos]
    exact min_le_left _ _

/-- **A quotient is rounded to a number in whose interval it lies.** -/
theorem roundsTo_nearest (hp : 2 ≤ f.precision) {num den : Nat} (hnum : 0 < num) (hden : 0 < den)
    (finite : f.nearest num den < f.infinityBits) :
    ∃ m q, f.nearest num den = f.pattern m q ∧ f.Canonical m q ∧ f.RoundsTo (num / den) m q := by
  have positive : 0 < f.precision := by omega
  have least := f.minExponent_le_unit num den
  have pos := two_zpow_pos (f.unit num den)
  have near := f.abs_significand_sub_le hden num
  have tie : |(f.significand num den : ℚ) - num / den / 2 ^ f.unit num den| = 1 / 2 →
      f.significand num den % 2 = 0 := by
    rw [← overPowerOfTwo_div]
    exact even_roundHalfEven (overPowerOfTwo_snd_pos hden num _)
  have units : (num : ℚ) / den = num / den / 2 ^ f.unit num den * 2 ^ f.unit num den :=
    (div_mul_cancel₀ _ pos.ne').symm
  rw [f.nearest_of_pos hnum, min_lt_iff] at finite
  rw [f.nearest_of_pos hnum, min_eq_right (finite.resolve_left (lt_irrefl _)).le, units]
  rcases Nat.lt_or_eq_of_le (f.significand_le hnum hden) with small | carried
  · refine ⟨_, _, rfl, ⟨small, least, f.le_significand positive hnum hden⟩,
      roundsTo_units near tie fun above => ?_⟩
    have bits := f.unit_le hnum hden above.ne'
    have places : (f.precision : Int) - 1 = (f.precision - 1 : Nat) := by omega
    rwa [two_zpow_add, ← le_div_iff₀ pos, places, zpow_natCast] at bits
  · have double := f.two_pow_precision positive
    have field : (f.unit num den + 1 - f.minExponent).toNat =
        (f.unit num den - f.minExponent).toNat + 1 := by omega
    have lt := f.lt_unit hnum hden
    rw [two_zpow_add, ← div_lt_iff₀ pos, zpow_natCast] at lt
    rw [carried] at near ⊢
    push_cast at near
    refine ⟨2 ^ (f.precision - 1), f.unit num den + 1, ?_, ⟨?_, by omega, fun _ => Nat.le_refl _⟩,
      roundsTo_carried hp least (by linarith [(abs_le.1 near).2]) lt⟩
    · rw [pattern, field, Nat.add_mul]
      omega
    · have := Nat.two_pow_pos (f.precision - 1)
      omega

/-- **A quotient is rounded to a number exactly where it lies in its interval.** -/
theorem nearest_eq_pattern_iff (hp : 2 ≤ f.precision) (he : 2 ≤ f.exponentBits) {num den : Nat}
    (hnum : 0 < num) (hden : 0 < den) {m : Nat} {q : Int} (canonical : f.Canonical m q)
    (top : q ≤ f.minExponent + f.topExponent) :
    f.nearest num den = f.pattern m q ↔ f.RoundsTo (num / den) m q := by
  have positive : 0 < f.precision := by omega
  constructor
  · intro pattern
    have finite := f.pattern_lt_infinityBits positive he canonical top
    rw [← pattern] at finite
    obtain ⟨n, r, same, other, rounds⟩ := f.roundsTo_nearest hp hnum hden finite
    obtain ⟨rfl, rfl⟩ := f.pattern_inj positive canonical other (pattern.symm.trans same)
    exact rounds
  · intro rounds
    have finite := f.nearest_lt_infinityBits positive he hnum hden
      (rounds.lt_overflow positive canonical top)
    obtain ⟨n, r, same, other, found⟩ := f.roundsTo_nearest hp hnum hden finite
    obtain ⟨rfl, rfl⟩ := rounds.unique positive canonical other found
    exact same

end BinaryFormat

end PreparedSql
