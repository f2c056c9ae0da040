import PreparedSql.Proofs.Scaling
import PreparedSql.Proofs.ShortestDecimals

/-!
# Large naturals as floating-point numbers

A natural is read as the nearest double, however many digits it has.  From `2 ^ 63` on a double
keeps all its bits and its unit is a whole number, so that its shortest decimal is a natural again.
Which natural that is, is said here without the search for it (`IsShortest`): of the naturals that
are rounded to the double it has the most zeros at its end, and of those the nearest one is taken.

* `Double.ofDecimal_natural`: how a natural is read.
* `exists_isShortest`: the shortest decimal of a large double is the shortest natural of the double.
* `isShortest_of_digits`: a natural with fifteen significant digits is the shortest one of its
  double.
-/

namespace PreparedSql

theorem ten_pow_le_of_decimalLength {n i : Nat} (pos : 0 < n) (h : i < decimalLength n) :
    (10 : ℚ) ^ i ≤ n := by
  have le : 10 ^ i ≤ 10 ^ (decimalLength n - 1) := Nat.pow_le_pow_right (by decide) (by omega)
  exact_mod_cast le.trans (ten_pow_decimalLength_le pos)

namespace Double

open BinaryFormat (binary64)

theorem nearest_lt_signBit (num den : Nat) : binary64.nearest num den < binary64.signBit :=
  (binary64.nearest_le_infinityBits num den).trans_lt (by decide)

theorem toNat_bits_ofRatio (negative : Bool) (num den : Nat) :
    (ofRatio negative num den).bits.toNat =
      binary64.signed negative (binary64.nearest num den) := by
  have small := nearest_lt_signBit num den
  have double : binary64.signBit + binary64.signBit = UInt64.size := by decide
  have size : binary64.signed negative (binary64.nearest num den) < UInt64.size := by
    rw [← double, BinaryFormat.signed]
    split
    · exact Nat.add_lt_add_left small _
    · exact Nat.lt_add_right _ small
  exact UInt64.toNat_ofNat_of_lt' size

theorem toNat_bits_ofRatio_false (num den : Nat) :
    (ofRatio false num den).bits.toNat = binary64.nearest num den := by
  rw [toNat_bits_ofRatio, BinaryFormat.signed, if_neg Bool.false_ne_true]

/-- A quotient from the overflow on is rounded to infinity. -/
theorem nearest_eq_infinityBits {num den : Nat} (hnum : 0 < num) (hden : 0 < den)
    (h : overflow ≤ (num : ℚ) / den) : binary64.nearest num den = binary64.infinityBits := by
  refine le_antisymm (binary64.nearest_le_infinityBits num den) ?_
  by_contra finite
  rw [Nat.not_le] at finite
  obtain ⟨m, q, same, canonical, rounds⟩ :=
    binary64.roundsTo_nearest (by decide) hnum hden finite
  rw [same] at finite
  have top := binary64.exponent_le_of_pattern_lt (by decide) canonical finite
  exact absurd (rounds.lt_overflow (by decide) canonical top) (not_lt.2 h)

theorem infinity_eq_ofRatio (negative : Bool) {num den : Nat} (hnum : 0 < num) (hden : 0 < den)
    (h : overflow ≤ (num : ℚ) / den) : infinity negative = ofRatio negative num den := by
  rw [ofRatio, nearest_eq_infinityBits hnum hden h]
  rfl

/-- A natural is read as the nearest double, however many digits it has. -/
theorem ofDecimal_natural (negative : Bool) (n : Nat) :
    ofDecimal negative ⟨n, 0⟩ = ofRatio negative n 1 := by
  have power : n * 10 ^ (0 : Int).toNat = n ∧ 10 ^ (-(0 : Int)).toNat = 1 := ⟨Nat.mul_one n, rfl⟩
  have reach : (2 : Int) ^ (binary64.exponentBits - 1) = 1024 := by decide
  have length := decimalLength_pos n
  unfold ofDecimal
  dsimp only
  rw [power.1, power.2, reach]
  split
  · next small =>
      rcases small with rfl | below
      · rfl
      · omega
  · next positive =>
      split
      · next above =>
          have pos : 0 < n := by omega
          have large : (10 : ℚ) ^ 309 ≤ n := ten_pow_le_of_decimalLength pos (by omega)
          refine infinity_eq_ofRatio negative pos Nat.one_pos ?_
          rw [Nat.cast_one, div_one]
          exact overflow_lt_ten_pow.le.trans large
      · rfl

/-- The number of a double that a quotient is rounded to. -/
theorem number_ofRatio_of_pattern {num den m : Nat} {q : Int}
    (canonical : binary64.Canonical m q) (top : q ≤ 971)
    (h : binary64.nearest num den = binary64.pattern m q) (negative : Bool) :
    (ofRatio negative num den).number = .finite negative m q := by
  have decoded := binary64.decode_pattern (by decide) (by decide) canonical top
  rw [number, toNat_bits_ofRatio]
  rw [← h] at decoded
  exact binary64.decode_signed (by decide) (nearest_lt_signBit num den) decoded negative

/-- The exact value of a double that a quotient is rounded to. -/
theorem Is.eq_of_number {x : Double} {v : ℚ} {m : Nat} {q : Int} (h : x.Is v)
    (number : x.number = .finite false m q) : v = m * 2 ^ q := by
  obtain ⟨n, r, same, rfl⟩ := h
  obtain ⟨-, rfl, rfl⟩ := BinaryNumber.finite.inj (same.symm.trans number)
  rfl

end Double

/-- Two naturals that are rounded to one double. -/
def SameDouble (a b : Nat) : Prop := Double.ofRatio false a 1 = Double.ofRatio false b 1

/-- No natural that is rounded to the same double is divisible by a greater power of ten, and `n` is
preferred to those that are divisible by the same powers. -/
structure IsShortest (n : Nat) : Prop where
  roundest : ∀ a, SameDouble a n → ∀ k, 10 ^ k ∣ a → 10 ^ k ∣ n
  nearest  : ∀ a, SameDouble a n → (∀ k, 10 ^ k ∣ n → 10 ^ k ∣ a) →
    ∀ v, (Double.ofRatio false n 1).Is v → Preferred v n a

/-- A natural that is divisible by a power of ten lies on the grid of the power. -/
theorem exists_eq_mul_of_dvd {a k : Nat} (divides : 10 ^ k ∣ a) :
    ∃ c : Nat, (a : ℚ) = c * 10 ^ (k : Int) := by
  obtain ⟨c, rfl⟩ := divides
  refine ⟨c, ?_⟩
  rw [zpow_natCast]
  push_cast
  ring

section

open BinaryFormat (binary64)

variable {m n : Nat} {q : Int}

/-- What a large natural is rounded to. -/
structure LargeDouble (n m : Nat) (q : Int) : Prop where
  canonical : binary64.Canonical m q
  top       : q ≤ 971
  normal    : 2 ^ 52 ≤ m
  exponent  : 11 ≤ q
  pattern   : binary64.nearest n 1 = binary64.pattern m q

theorem exists_largeDouble (large : 2 ^ 63 ≤ n) (finite : (n : ℚ) < Double.overflow) :
    ∃ m q, LargeDouble n m q := by
  have pos : 0 < n := by omega
  have quotient : (n : ℚ) / (1 : Nat) = n := by rw [Nat.cast_one, div_one]
  have below := Double.nearest_lt_infinityBits pos Nat.one_pos (quotient.trans_lt finite)
  obtain ⟨m, q, pattern, canonical, rounds⟩ :=
    binary64.roundsTo_nearest (by decide) pos Nat.one_pos below
  have top := binary64.exponent_le_of_pattern_lt (by decide) canonical (pattern ▸ below)
  -- with a smaller exponent there would be too few bits
  have exponent : 11 ≤ q := by
    by_contra small
    have bits : (m : ℚ) + 1 ≤ 2 ^ 53 := by exact_mod_cast canonical.lt
    have high := rounds.high
    have least : (2 : ℚ) ^ 63 ≤ n := by exact_mod_cast large
    have unit : (2 : ℚ) ^ q ≤ 2 ^ (10 : Int) := zpow_le_zpow_right₀ one_le_two (by omega)
    have pos := two_zpow_pos q
    rw [quotient] at high
    norm_num at unit
    nlinarith
  refine ⟨m, q, canonical, top, canonical.normal ?_, exponent, pattern⟩
  have least : binary64.minExponent = -1074 := by decide
  omega

namespace LargeDouble

/-- Which naturals are rounded to it. -/
theorem sameDouble_iff (h : LargeDouble n m q) (a : Nat) :
    SameDouble a n ↔ binary64.RoundsTo a m q := by
  have patterns : SameDouble a n ↔ binary64.nearest a 1 = binary64.pattern m q := by
    rw [← h.pattern, SameDouble]
    constructor
    · intro same
      rw [← Double.toNat_bits_ofRatio_false, same, Double.toNat_bits_ofRatio_false]
    · intro same
      rw [Double.ofRatio, same, Double.ofRatio]
  have quotient : (a : ℚ) / (1 : Nat) = a := by rw [Nat.cast_one, div_one]
  have positive : 0 < m := by have := h.normal; omega
  rw [patterns]
  rcases Nat.eq_zero_or_pos a with rfl | pos
  · refine iff_of_false (fun zero => ?_) fun rounds => ?_
    · have : binary64.nearest 0 1 = 0 := if_pos rfl
      rw [this, BinaryFormat.pattern] at zero
      omega
    · have := rounds.pos positive
      rw [Nat.cast_zero] at this
      exact lt_irrefl _ this
  · rw [binary64.nearest_eq_pattern_iff (by decide) (by decide) pos Nat.one_pos h.canonical h.top,
      quotient]

theorem number (h : LargeDouble n m q) (negative : Bool) :
    (Double.ofRatio negative n 1).number = .finite negative m q :=
  Double.number_ofRatio_of_pattern h.canonical h.top h.pattern negative

theorem eighteen_le (h : LargeDouble n m q) :
    18 ≤ leadingExponent (m * 2 ^ q.toNat) (2 ^ (-q).toNat) := by
  have pos : 0 < m := by have := h.normal; omega
  have lt := lt_ten_zpow_leadingExponent (Nat.mul_pos pos (Nat.two_pow_pos q.toNat))
    (Nat.two_pow_pos (-q).toNat)
  rw [BinaryFormat.quotient_eq] at lt
  have unit : (2 : ℚ) ^ (11 : Int) ≤ 2 ^ q := zpow_le_zpow_right₀ one_le_two h.exponent
  have bits : (2 : ℚ) ^ 52 ≤ m := by exact_mod_cast h.normal
  have least : (10 : ℚ) ^ (18 : Int) ≤ m * 2 ^ q := by
    norm_num at unit ⊢
    nlinarith
  by_contra small
  have power : (10 : ℚ) ^ (leadingExponent (m * 2 ^ q.toNat) (2 ^ (-q).toNat) + 1) ≤
      10 ^ (18 : Int) := zpow_le_zpow_right₀ (by norm_num) (by omega)
  exact absurd (least.trans_lt lt) (not_lt.2 power)

/-- Its shortest decimal is a natural that lies on the grid of some power of ten. -/
theorem shortest_natural (h : LargeDouble n m q) :
    0 ≤ (binary64.shortest .up m q).exponent ∧ ∃ k d : Nat,
      (binary64.shortest .up m q).value = (d * 10 ^ k : Nat) ∧
        binary64.ShortestOn m q k (d * 10 ^ k : Nat) := by
  obtain ⟨k, low, high, found⟩ := Double.shortest_spec (q := q) h.normal h.canonical.lt
  have leading := h.eighteen_le
  obtain ⟨k, rfl⟩ := Int.eq_ofNat_of_zero_le (show 0 ≤ k by omega)
  obtain ⟨d, value⟩ := found.multiple
  have natural : (binary64.shortest .up m q).value = (d * 10 ^ k : Nat) := by
    rw [value, zpow_natCast]
    push_cast
    rfl
  exact ⟨by omega, k, d, natural, natural ▸ found⟩

/-- **That natural is the shortest one** of its double, and no other is. -/
theorem isShortest_iff (h : LargeDouble n m q) {d k : Nat}
    (found : binary64.ShortestOn m q k (d * 10 ^ k : Nat)) : IsShortest n ↔ n = d * 10 ^ k := by
  have rounds {a : Nat} (same : SameDouble a n) : binary64.RoundsTo a m q :=
    (h.sameDouble_iff a).1 same
  have self : SameDouble (d * 10 ^ k) n := (h.sameDouble_iff _).2 found.rounds
  -- what is divisible by a greater power is this natural
  have coarser {a l : Nat} (same : SameDouble a n) (divides : 10 ^ l ∣ a) :
      10 ^ l ∣ d * 10 ^ k := by
    rcases Nat.lt_or_ge k l with above | below
    · obtain ⟨c, value⟩ := exists_eq_mul_of_dvd divides
      have there := found.coarsest l (by omega) c (value ▸ rounds same)
      rw [← value] at there
      rwa [← Nat.cast_injective there]
    · exact (Nat.pow_dvd_pow 10 below).trans (Nat.dvd_mul_left _ _)
  have preferred {a : Nat} (same : SameDouble a n) (divides : 10 ^ k ∣ a) :
      Preferred (m * 2 ^ q) (d * 10 ^ k : Nat) a := by
    obtain ⟨c, value⟩ := exists_eq_mul_of_dvd divides
    rw [value]
    exact found.preferred c (value ▸ rounds same)
  constructor
  · intro shortest
    have divides : 10 ^ k ∣ n := shortest.roundest _ self k (Nat.dvd_mul_left _ _)
    have other := shortest.nearest _ self (fun l hl => coarser rfl hl) (m * 2 ^ q)
      ⟨m, q, h.number false, rfl⟩
    exact Nat.cast_injective (other.antisymm (preferred rfl divides))
  · intro here
    refine ⟨fun a same l divides => here ▸ coarser same divides, fun a same powers v is => ?_⟩
    rw [is.eq_of_number (h.number false)]
    have divides : 10 ^ k ∣ a := powers k (here ▸ Nat.dvd_mul_left _ _)
    have nearest := preferred same divides
    rwa [← here] at nearest

theorem of_sameDouble (h : LargeDouble n m q) {a : Nat} (same : SameDouble a n) :
    LargeDouble a m q :=
  { h with pattern := by rw [← Double.toNat_bits_ofRatio_false, same,
      Double.toNat_bits_ofRatio_false, h.pattern] }

end LargeDouble

/-- **The shortest decimal of a large double** is the shortest natural of the double, which has no
other. -/
theorem exists_isShortest (large : 2 ^ 63 ≤ n) (finite : (n : ℚ) < Double.overflow) :
    ∃ m q s, (∀ negative, (Double.ofRatio negative n 1).number = .finite negative m q) ∧
      0 ≤ (binary64.shortest .up m q).exponent ∧ (binary64.shortest .up m q).value = (s : Nat) ∧
      SameDouble s n ∧ IsShortest s ∧ ∀ a, SameDouble a n → IsShortest a → a = s := by
  obtain ⟨m, q, double⟩ := exists_largeDouble large finite
  obtain ⟨whole, k, d, value, found⟩ := double.shortest_natural
  have same : SameDouble (d * 10 ^ k) n := (double.sameDouble_iff _).2 found.rounds
  refine ⟨m, q, d * 10 ^ k, double.number, whole, value, same, ?_, fun a ha shortest => ?_⟩
  · exact ((double.of_sameDouble same).isShortest_iff found).2 rfl
  · exact ((double.of_sameDouble ha).isShortest_iff found).1 shortest

/-- With fifteen significant digits or fewer, an integer is the shortest one of its double. -/
theorem isShortest_of_digits {d k : Nat} (few : d < 10 ^ 15) (large : 2 ^ 63 ≤ d * 10 ^ k)
    (finite : ((d * 10 ^ k : Nat) : ℚ) < Double.overflow) : IsShortest (d * 10 ^ k) := by
  obtain ⟨m, q, double⟩ := exists_largeDouble large finite
  have self := (double.sameDouble_iff _).1 (rfl : SameDouble (d * 10 ^ k) (d * 10 ^ k))
  have counted : ((d * 10 ^ k : Nat) : ℚ) = d * 10 ^ (k : Int) := by
    rw [zpow_natCast]
    push_cast
    rfl
  -- such a grid is wider than the interval, which has room for one multiple only
  have wide : (2 : ℚ) ^ q < 10 ^ (k : Int) := by
    have low := self.low
    have reach := binary64.lowerReach_le m q
    have bits : (2 : ℚ) ^ 52 ≤ m := by exact_mod_cast double.normal
    have digits : (d : ℚ) < 10 ^ 15 := by exact_mod_cast few
    have pos := two_zpow_pos q
    have ten := ten_zpow_pos (k : Int)
    rw [counted] at low
    nlinarith
  have only {a : Nat} (same : SameDouble a (d * 10 ^ k)) (divides : 10 ^ k ∣ a) :
      a = d * 10 ^ k := by
    obtain ⟨c, value⟩ := exists_eq_mul_of_dvd divides
    have there := (double.sameDouble_iff _).1 same
    rw [value] at there
    rw [counted] at self
    rw [there.eq_of_wide wide self, ← counted] at value
    exact Nat.cast_injective value
  refine ⟨fun a same l divides => ?_, fun a same powers v _ => ?_⟩
  · rcases Nat.lt_or_ge k l with above | below
    · exact only same ((Nat.pow_dvd_pow 10 above.le).trans divides) ▸ divides
    · exact (Nat.pow_dvd_pow 10 below).trans (Nat.dvd_mul_left _ _)
  · rw [only same (powers k (Nat.dvd_mul_left _ _))]
    exact .inr ⟨rfl, le_refl _⟩

end

end PreparedSql
