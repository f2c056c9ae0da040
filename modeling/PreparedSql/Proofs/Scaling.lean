import PreparedSql.Json.Reading
import PreparedSql.Proofs.ShortestBounds

/-!
# A number with an exponent is read without overflow

Reading a number of a document rounds its significand and the power of ten, and rounds again when
they are multiplied or divided.  Two of these can each make the number a little larger, so a
number just below the largest one could be refused; a division never is.

* `Double.ofRatio_near`, `Double.mul_eq_ofRatio`, `Double.div_eq_ofRatio`: arithmetic is exact but
  for one rounding.
* `Json.scale?_of_lt`: a significand of 64 bits is scaled to a finite number if there is room for
  two roundings below the overflow.
-/

namespace PreparedSql

/-- Whether a pattern is finite shows in its exponent field. -/
theorem BinaryFormat.decode_finite_iff (f : BinaryFormat) (bits : Nat) :
    (∃ s m q, f.decode bits = .finite s m q) ↔
      bits / 2 ^ (f.precision - 1) % 2 ^ f.exponentBits ≠ 2 ^ f.exponentBits - 1 := by
  rw [decode]
  split
  · next special =>
      refine iff_of_false ?_ (not_not_intro special)
      rintro ⟨s, m, q, h⟩
      split at h <;> cases h
  · next finite =>
      refine iff_of_true ?_ finite
      split
      · exact ⟨_, _, _, rfl⟩
      · exact ⟨_, _, _, rfl⟩

/-- Without a minus sign the bits of the number are the pattern. -/
theorem BinaryFormat.signed_false (f : BinaryFormat) (n : Nat) : f.signed false n = n := rfl

namespace Double

theorem isFinite_iff {x : Double} : x.isFinite = true ↔ ∃ s m q, x.number = .finite s m q := by
  rw [isFinite]
  split
  · next s m q number => exact iff_of_true rfl ⟨s, m, q, number⟩
  · next other =>
      refine iff_of_false Bool.false_ne_true ?_
      rintro ⟨s, m, q, number⟩
      exact other s m q number

theorem isFinite_iff_exponent {x : Double} :
    x.isFinite = true ↔ x.bits.toNat / 2 ^ 52 % 2 ^ 11 ≠ 2 ^ 11 - 1 :=
  isFinite_iff.trans (BinaryFormat.binary64.decode_finite_iff _)

/-- `x` is the number `v`, without a minus sign. -/
def Is (x : Double) (v : ℚ) : Prop := ∃ m q, x.number = .finite false m q ∧ (m : ℚ) * 2 ^ q = v

theorem Is.isFinite {x : Double} {v : ℚ} (h : x.Is v) : x.isFinite = true := by
  obtain ⟨m, q, number, -⟩ := h
  exact isFinite_iff.2 ⟨_, _, _, number⟩

/-- There is no minus sign, so there is no negative number. -/
theorem Is.nonneg {x : Double} {v : ℚ} (h : x.Is v) : 0 ≤ v := by
  obtain ⟨m, q, -, rfl⟩ := h
  exact mul_nonneg (Nat.cast_nonneg m) (two_zpow_pos q).le

/-- Zero has no significand, whatever its exponent. -/
theorem Is.isZero {x : Double} (h : x.Is 0) : x.isZero = true := by
  obtain ⟨m, q, number, zero⟩ := h
  have m_eq : m = 0 := by
    have := (mul_eq_zero.1 zero).resolve_right (two_zpow_pos q).ne'
    exact_mod_cast this
  rw [Double.isZero, number, m_eq]
  rfl

theorem isFinite_of_isZero {x : Double} (h : x.isZero = true) : x.isFinite = true := by
  rw [Double.isZero] at h
  rw [Double.isFinite]
  split at h
  · rfl
  · cases h

/-! ### One rounding -/

/-- Numbers from here on are rounded to infinity. -/
def overflow : ℚ := (2 ^ 53 - 1 / 2) * 2 ^ (971 : Int)

theorem overflow_eq : overflow = (2 ^ 54 - 1 : Nat) * 2 ^ ((970 : Nat) : Int) := by
  have split : (2 : ℚ) ^ (971 : Int) = 2 * 2 ^ ((970 : Nat) : Int) := by
    rw [← zpow_one_add₀ two_ne_zero]
    rfl
  rw [overflow, split, ← mul_assoc]
  congr 1
  norm_num

-- the powers are compared as naturals, with exponents that stay variables until then
theorem cast_pow_lt {a b c i j : Nat} (h : a ^ i < b * c ^ j) : (a : ℚ) ^ i < b * c ^ j := by
  exact_mod_cast h

theorem lt_cast_pow {a b c i j : Nat} (h : b * c ^ j < a ^ i) : b * c ^ j < (a : ℚ) ^ i := by
  exact_mod_cast h

/-- The largest power of ten with a finite number. -/
theorem ten_pow_lt_overflow : (10 : ℚ) ^ 308 < overflow := by
  have lt := cast_pow_lt (a := 10) (b := 2 ^ 54 - 1) (c := 2) (i := 308) (j := 970)
    (by decide +kernel)
  rw [overflow_eq, zpow_natCast]
  exact lt

theorem overflow_lt_ten_pow : overflow < 10 ^ 309 := by
  have lt := lt_cast_pow (a := 10) (b := 2 ^ 54 - 1) (c := 2) (i := 309) (j := 970)
    (by decide +kernel)
  rw [overflow_eq, zpow_natCast]
  exact lt

/-- Without a sign the bits of a rounded number are the pattern of its nearest number. -/
theorem bits_ofRatio (num den : Nat) :
    (ofRatio false num den).bits = .ofNat (BinaryFormat.binary64.nearest num den) := by
  rw [ofRatio, BinaryFormat.signed_false]

theorem number_ofRatio {num den : Nat}
    (h : BinaryFormat.binary64.nearest num den < BinaryFormat.binary64.infinityBits) :
    (ofRatio false num den).number =
      BinaryFormat.binary64.decode (BinaryFormat.binary64.nearest num den) := by
  have small : BinaryFormat.binary64.nearest num den < UInt64.size := Nat.lt_trans h (by decide)
  rw [number, bits_ofRatio, UInt64.toNat_ofNat_of_lt' small]

theorem ofRatio_zero (den : Nat) : (ofRatio false 0 den).Is 0 := by
  have zero : BinaryFormat.binary64.nearest 0 den = 0 := if_pos rfl
  have finite : BinaryFormat.binary64.nearest 0 den < BinaryFormat.binary64.infinityBits := by
    rw [zero]
    decide
  have decoded : BinaryFormat.binary64.decode 0 = .finite false 0 (-1074) := by decide
  exact ⟨0, -1074, by rw [number_ofRatio finite, zero, decoded], by norm_num⟩

/-- What lies below the overflow is not rounded to infinity. -/
theorem nearest_lt_infinityBits {num den : Nat} (hnum : 0 < num) (hden : 0 < den)
    (h : (num : ℚ) / den < overflow) :
    BinaryFormat.binary64.nearest num den < BinaryFormat.binary64.infinityBits :=
  BinaryFormat.binary64.nearest_lt_infinityBits (by decide) (by decide) hnum hden h

/-- **One rounding** goes half a unit at most. -/
theorem ofRatio_half_unit {num den : Nat} (hnum : 0 < num) (hden : 0 < den)
    (h : (num : ℚ) / den < overflow) :
    ∃ v, (ofRatio false num den).Is v ∧
      |v - num / den| ≤ 2 ^ BinaryFormat.binary64.unit num den / 2 := by
  have finite := nearest_lt_infinityBits hnum hden h
  obtain ⟨m, q, decoded, near⟩ :=
    BinaryFormat.binary64.decode_nearest (by decide) hnum hden finite
  exact ⟨_, ⟨m, q, (number_ofRatio finite).trans decoded, rfl⟩, near⟩

/-- A quotient that is not too small is off by a part in `2 ^ 53` at most. -/
theorem ofRatio_near {num den : Nat} (hden : 0 < den) (normal : (1 : ℚ) ≤ num / den)
    (h : (num : ℚ) / den < overflow) :
    ∃ v, (ofRatio false num den).Is v ∧ |v - num / den| ≤ num / den / 2 ^ 53 := by
  have hnum : 0 < num := by
    rcases Nat.eq_zero_or_pos num with rfl | pos
    · norm_num at normal
    · exact pos
  obtain ⟨v, is, near⟩ := ofRatio_half_unit hnum hden h
  refine ⟨v, is, near.trans (BinaryFormat.binary64.half_unit_le hnum hden (le_trans ?_ normal))⟩
  exact zpow_le_one_of_nonpos₀ one_le_two (by decide)

/-- Any quotient is finite, and rounding at most about doubles it. -/
theorem ofRatio_le {num den : Nat} (hden : 0 < den) (h : (num : ℚ) / den < overflow) :
    ∃ v, (ofRatio false num den).Is v ∧ v ≤ 2 * (num / den) + 1 := by
  rcases Nat.eq_zero_or_pos num with rfl | hnum
  · exact ⟨0, ofRatio_zero den, by norm_num⟩
  · obtain ⟨v, is, near⟩ := ofRatio_half_unit hnum hden h
    have half := BinaryFormat.binary64.half_unit_le_add (by decide) hnum hden
    have least : (2 : ℚ) ^ BinaryFormat.binary64.minExponent ≤ 1 :=
      zpow_le_one_of_nonpos₀ one_le_two (by decide)
    have above := (abs_le.1 near).2
    exact ⟨v, is, by linarith⟩

/-! ### Arithmetic -/

/-- A product is the exact one, rounded once. -/
theorem mul_eq_ofRatio {x y : Double} {v w : ℚ} (hx : x.Is v) (hy : y.Is w) :
    ∃ num den, 0 < den ∧ x.mul y = ofRatio false num den ∧ (num : ℚ) / (den : Nat) = v * w := by
  obtain ⟨m, q, number, rfl⟩ := hx
  obtain ⟨n, r, number', rfl⟩ := hy
  refine ⟨m * n * 2 ^ (q + r).toNat, 2 ^ (-(q + r)).toNat, Nat.two_pow_pos _, ?_, ?_⟩
  · rw [mul, number, number']
    rfl
  · rw [BinaryFormat.quotient_eq, two_zpow_add]
    push_cast
    ring

/-- A quotient is the exact one, rounded once. -/
theorem div_eq_ofRatio {x y : Double} {v w : ℚ} (hx : x.Is v) (hy : y.Is w) (hw : w ≠ 0) :
    ∃ num den, 0 < den ∧ x.div y = ofRatio false num den ∧ (num : ℚ) / (den : Nat) = v / w := by
  obtain ⟨m, q, number, rfl⟩ := hx
  obtain ⟨n, r, number', rfl⟩ := hy
  have n_ne : n ≠ 0 := by
    rintro rfl
    simp at hw
  refine ⟨m * 2 ^ (q - r).toNat, n * 2 ^ (r - q).toNat,
    Nat.mul_pos (Nat.pos_of_ne_zero n_ne) (Nat.two_pow_pos _), ?_, ?_⟩
  · rw [div, number, number']
    simp [n_ne]
  · have quotient := BinaryFormat.quotient_eq m (q - r)
    rw [neg_sub, sub_eq_add_neg, two_zpow_add, zpow_neg] at quotient
    rw [Nat.cast_mul n, mul_comm (n : ℚ), ← div_div, sub_eq_add_neg, quotient]
    field_simp

end Double

namespace Json

open Double

/-! ### Powers of ten -/

/-- The powers of ten that the reader scales by are rounded ones. -/
theorem power_near {k : Nat} (h : k ≤ 308) :
    ∃ p, (power k).Is p ∧ |p - 10 ^ k| ≤ 10 ^ k / 2 ^ 53 := by
  have one : (1 : ℚ) ≤ 10 ^ k := one_le_pow₀ (by norm_num)
  have small : (10 : ℚ) ^ k < overflow :=
    (pow_le_pow_right₀ (by norm_num) h).trans_lt ten_pow_lt_overflow
  have quotient : ((10 ^ k : Nat) : ℚ) / (1 : Nat) = 10 ^ k := by
    push_cast
    ring
  rw [← quotient] at one small ⊢
  exact ofRatio_near Nat.one_pos one small

/-! ### Scaling -/

/-- Dividing by a power of ten makes no number larger than `2 ^ 65`. -/
theorem div_power_le {x : Double} {v : ℚ} (hx : x.Is v) (hv : v ≤ 2 ^ 65) {k : Nat} (hk : 0 < k)
    (h : k ≤ 308) : ∃ w, (x.div (power k)).Is w ∧ w ≤ 2 ^ 65 := by
  obtain ⟨p, is, near⟩ := power_near h
  have nonneg := hx.nonneg
  have ten : (10 : ℚ) ≤ 10 ^ k := le_self_pow₀ (by norm_num) hk.ne'
  have p_ge : 5 ≤ p := by
    have := (abs_le.1 near).1
    linarith
  obtain ⟨num, den, pos, eq, quotient⟩ := div_eq_ofRatio hx is (by linarith)
  have le : v / p ≤ 2 ^ 65 / 5 := div_le_div₀ (by norm_num) hv (by norm_num) p_ge
  have large : (2 : ℚ) ^ 65 / 5 < overflow := by
    refine lt_of_le_of_lt ?_ ten_pow_lt_overflow
    refine le_trans ?_ (pow_le_pow_right₀ (by norm_num) (show 20 ≤ 308 by decide))
    norm_num
  rw [eq]
  obtain ⟨w, is, w_le⟩ := ofRatio_le pos (quotient.trans_lt (le.trans_lt large))
  rw [quotient] at w_le
  refine ⟨w, is, ?_⟩
  linarith

/-- Scaling down always gives a number. -/
theorem scale?_of_neg {x : Double} {v : ℚ} (hx : x.Is v) (hv : v ≤ 2 ^ 65) {e : Int} (he : e < 0) :
    ∃ y, scale? x e = some y ∧ y.isFinite = true := by
  induction h : e.natAbs using Nat.strongRecOn generalizing x v e with
  | ind n ih =>
      have down : ¬ 0 ≤ e := by omega
      rw [scale?]
      simp only [down, if_false]
      split
      · next small =>
          obtain ⟨w, is, -⟩ := div_power_le hx hv (by omega) small
          exact ⟨_, if_pos is.isFinite, is.isFinite⟩
      · split
        · next zero => exact ⟨x, rfl, isFinite_of_isZero zero⟩
        · obtain ⟨w, is, le⟩ := div_power_le hx hv (by decide) (Nat.le_refl 308)
          exact ih (e + 308).natAbs (by omega) is le (by omega) rfl

/-- A significand of 64 bits is no danger by itself. -/
theorem natCast_lt_overflow {n : Nat} (h : n < 2 ^ 64) : (n : ℚ) < overflow := by
  have lt : (n : ℚ) < 10 ^ 20 := by exact_mod_cast Nat.lt_trans h (by decide)
  exact (lt.trans_le (pow_le_pow_right₀ (by norm_num) (by decide))).trans ten_pow_lt_overflow

/-- A significand, rounded. -/
theorem significand_le {n : Nat} (h : n < 2 ^ 64) :
    ∃ v, (Double.ofRatio false n 1).Is v ∧ v ≤ n * (1 + 1 / 2 ^ 53) := by
  rcases Nat.eq_zero_or_pos n with rfl | pos
  · exact ⟨0, ofRatio_zero 1, by norm_num⟩
  · have quotient : (n : ℚ) / (1 : Nat) = n := by rw [Nat.cast_one, div_one]
    have one : (1 : ℚ) ≤ n := by exact_mod_cast pos
    have small := natCast_lt_overflow h
    rw [← quotient] at one small
    obtain ⟨v, is, near⟩ := ofRatio_near Nat.one_pos one small
    rw [quotient] at near
    have := (abs_le.1 near).2
    exact ⟨v, is, by linarith⟩

/-- A product is finite if there is room for two roundings below the overflow. -/
theorem scale?_of_nonneg {n e : Nat} (hn : n < 2 ^ 64)
    (h : (n : ℚ) * 10 ^ e * (1 + 1 / 2 ^ 53) ^ 2 < overflow) :
    ∃ y, scale? (.ofRatio false n 1) e = some y ∧ y.isFinite = true := by
  rw [scale?, if_pos (Int.natCast_nonneg e)]
  split
  · next small =>
      obtain ⟨v, is, v_le⟩ := significand_le hn
      obtain ⟨p, is_p, near⟩ := power_near small
      obtain ⟨num, den, pos, eq, quotient⟩ := mul_eq_ofRatio is is_p
      have p_le : p ≤ 10 ^ e * (1 + 1 / 2 ^ 53) := by
        have := (abs_le.1 near).2
        rw [Int.natAbs_natCast] at this
        linarith
      have product : (num : ℚ) / (den : Nat) < overflow := by
        refine lt_of_le_of_lt ?_ h
        calc (num : ℚ) / (den : Nat) = v * p := quotient
          _ ≤ n * (1 + 1 / 2 ^ 53) * (10 ^ e * (1 + 1 / 2 ^ 53)) :=
              mul_le_mul v_le p_le is_p.nonneg (by positivity)
          _ = n * 10 ^ e * (1 + 1 / 2 ^ 53) ^ 2 := by ring
      obtain ⟨w, is, -⟩ := ofRatio_le pos product
      rw [← eq] at is
      exact ⟨_, if_pos is.isFinite, is.isFinite⟩
  · next large =>
      -- no other significand leaves room below such a power
      have zero : n = 0 := by
        by_contra n_ne
        have one : (1 : ℚ) ≤ n := by exact_mod_cast Nat.pos_of_ne_zero n_ne
        have power : (10 : ℚ) ^ 309 ≤ 10 ^ e := pow_le_pow_right₀ (by norm_num) (by omega)
        have product : (10 : ℚ) ^ e ≤ n * 10 ^ e * (1 + 1 / 2 ^ 53) ^ 2 := by
          have pos : (0 : ℚ) < 10 ^ e := by positivity
          have le : (10 : ℚ) ^ e ≤ n * 10 ^ e := le_mul_of_one_le_left pos.le one
          refine le.trans (le_mul_of_one_le_right (by positivity) ?_)
          norm_num
        exact absurd (h.trans overflow_lt_ten_pow) (not_lt.2 (power.trans product))
      subst zero
      have zero := (ofRatio_zero 1).isZero
      rw [if_pos zero]
      exact ⟨_, rfl, isFinite_of_isZero zero⟩

/-- **A significand of 64 bits is scaled to a finite number** if there is room for two roundings
below the overflow. -/
theorem scale?_of_lt {n : Nat} {e : Int} (hn : n < 2 ^ 64)
    (h : (n : ℚ) * 10 ^ e * (1 + 1 / 2 ^ 53) ^ 2 < overflow) :
    ∃ y, scale? (.ofRatio false n 1) e = some y ∧ y.isFinite = true := by
  rcases lt_or_ge e 0 with down | up
  · obtain ⟨v, is, v_le⟩ := significand_le hn
    have n_le : (n : ℚ) ≤ 2 ^ 64 := by exact_mod_cast hn.le
    exact scale?_of_neg is (by linarith) down
  · obtain ⟨k, rfl⟩ := Int.eq_ofNat_of_zero_le up
    rw [zpow_natCast] at h
    exact scale?_of_nonneg hn h

/-! ### The sign -/

/-- A sign changes nothing about overflow. -/
theorem isFinite_neg (x : Double) : x.neg.isFinite = x.isFinite := by
  have rest : x.neg.bits.toNat % 2 ^ 63 = x.bits.toNat % 2 ^ 63 := by
    rw [neg, UInt64.toNat_xor, Nat.xor_mod_two_pow]
    exact Nat.xor_zero _
  have field (n : Nat) : n / 2 ^ 52 % 2 ^ 11 = n % 2 ^ 63 / 2 ^ 52 :=
    (Nat.mod_mul_right_div_self n (2 ^ 52) (2 ^ 11)).symm
  rw [Bool.eq_iff_iff, isFinite_iff_exponent, isFinite_iff_exponent, field, field, rest]

/-- A number of a document is accepted with either sign if its magnitude is. -/
theorem real?_of_scale? {n : Nat} {e : Int} (negative : Bool)
    (h : ∃ y, scale? (.ofRatio false n 1) e = some y ∧ y.isFinite = true) :
    ∃ x, real? negative n e = some x := by
  obtain ⟨y, scaled, finite⟩ := h
  rw [real?, scaled, Option.bind_some]
  cases negative
  · exact ⟨_, dif_pos finite⟩
  · exact ⟨_, dif_pos ((isFinite_neg y).trans finite)⟩

end Json

end PreparedSql
