import PreparedSql.Proofs.RoundingIntervals
import PreparedSql.Proofs.ShortestBounds

/-!
# Shortest decimals are what they are searched for

The grid of a power of ten has a hit exactly where a multiple of the power is rounded to the number,
and the hit is the nearest of these multiples.  So the first hit lies on the coarsest grid that has
one, and on a grid that is finer than the interval there is always one.

* `BinaryFormat.gridHit?_up`, `BinaryFormat.gridHit?_none`: what one grid answers.
* `BinaryFormat.firstHit_spec`: what the search answers.
* `shortest_spec`: what the shortest decimal of a number of 64 bits is, in these terms.
-/

namespace PreparedSql

/-! ### Nearness -/

/-- `a` is nearer to `v` than `b`, or as near and not less. -/
def Preferred (v a b : ℚ) : Prop := |a - v| < |b - v| ∨ |a - v| = |b - v| ∧ b ≤ a

section

variable {v a b : ℚ}

theorem preferred_of_below (ab : b ≤ a) (av : a ≤ v) : Preferred v a b := by
  rw [Preferred, abs_of_nonpos (by linarith), abs_of_nonpos (by linarith)]
  rcases lt_or_eq_of_le ab with lt | rfl
  · exact .inl (by linarith)
  · exact .inr ⟨rfl, le_refl _⟩

theorem preferred_of_above (va : v ≤ a) (ab : a ≤ b) : Preferred v a b := by
  rw [Preferred, abs_of_nonneg (by linarith), abs_of_nonneg (by linarith)]
  rcases lt_or_eq_of_le ab with lt | rfl
  · exact .inl (by linarith)
  · exact .inr ⟨rfl, le_refl _⟩

theorem preferred_of_nearer_below (av : a ≤ v) (nearer : v - a < b - v) : Preferred v a b := by
  rw [Preferred, abs_of_nonpos (by linarith), abs_of_nonneg (by linarith)]
  exact .inl (by linarith)

theorem preferred_of_nearer_above (va : v ≤ a) (nearer : a - v ≤ v - b) : Preferred v a b := by
  rw [Preferred, abs_of_nonneg (by linarith), abs_of_nonpos (by linarith)]
  rcases lt_or_eq_of_le nearer with lt | eq
  · exact .inl (by linarith)
  · exact .inr ⟨by linarith, by linarith⟩

/-- Of two numbers each of which is preferred to the other, one is the other. -/
theorem Preferred.antisymm (hab : Preferred v a b) (hba : Preferred v b a) : a = b := by
  rcases hab with ab | ⟨same, ba⟩
  · rcases hba with ba | ⟨same, -⟩
    · exact absurd ab (lt_asymm ba)
    · exact absurd ab (not_lt.2 same.le)
  · rcases hba with ba | ⟨-, ab⟩
    · exact absurd ba (not_lt.2 same.le)
    · exact le_antisymm ab ba

end

/-! ### The size of a number -/

theorem ten_zpow_leadingExponent_le {num den : Nat} (hnum : 0 < num) (hden : 0 < den) :
    (10 : ℚ) ^ leadingExponent num den ≤ num / den := by
  have pos : (0 : ℚ) < den := by exact_mod_cast hden
  rw [leadingExponent, le_div_iff₀ pos]
  split
  · next large =>
      have one : 1 ≤ num / den := (Nat.le_div_iff_mul_le hden).2 (by omega)
      have le : 10 ^ (decimalLength (num / den) - 1) * den ≤ num :=
        (Nat.le_div_iff_mul_le hden).1 (ten_pow_decimalLength_le one)
      have length := decimalLength_pos (num / den)
      have exponent : (decimalLength (num / den) : Int) - 1 =
          (decimalLength (num / den) - 1 : Nat) := by omega
      rw [exponent, zpow_natCast]
      exact_mod_cast le
  · have lt : den - 1 < 10 ^ decimalLength ((den - 1) / num) * num :=
      (Nat.div_lt_iff_lt_mul hnum).1 (lt_ten_pow_decimalLength _)
    have le : den ≤ 10 ^ decimalLength ((den - 1) / num) * num := by omega
    rw [zpow_neg, zpow_natCast, inv_mul_le_iff₀ (by positivity)]
    exact_mod_cast le

theorem Decimal.exponent_le_stripZeros (fuel : Nat) (x : Decimal) :
    x.exponent ≤ (x.stripZeros fuel).exponent := by
  induction fuel generalizing x with
  | zero => exact Int.le_refl _
  | succ fuel ih =>
      obtain ⟨d, e⟩ := x
      rw [stripZeros]
      split
      · exact Int.le_trans (Int.le_of_lt (Int.lt_succ e)) (ih _)
      · exact Int.le_refl e

namespace BinaryFormat

variable (f : BinaryFormat)

/-! ### One grid -/

/-- What the search counts distances in. -/
def gridUnit (q k : Int) : ℚ := 10 ^ k / gridStep q k

theorem gridUnit_pos (q k : Int) : 0 < gridUnit q k :=
  div_pos (ten_zpow_pos k) (by exact_mod_cast gridStep_pos q k)

theorem gridStep_mul_gridUnit (d : Nat) (q k : Int) :
    ((d * gridStep q k : Nat) : ℚ) * gridUnit q k = d * 10 ^ k := by
  have pos : (0 : ℚ) < gridStep q k := by exact_mod_cast gridStep_pos q k
  rw [gridUnit]
  push_cast
  field_simp

theorem gridScale_mul_gridUnit (n : Nat) (q k : Int) :
    ((n * gridScale q k : Nat) : ℚ) * gridUnit q k = n / 4 * 2 ^ q := by
  have pos : (0 : ℚ) < gridStep q k := by exact_mod_cast gridStep_pos q k
  have quarter : (2 : ℚ) ^ (q - 2) = 2 ^ q / 4 := by
    rw [zpow_sub₀ two_ne_zero]
    norm_num
  have counted := gridScale_mul q k
  rw [gridUnit, ← mul_div_assoc, div_eq_iff pos.ne']
  push_cast
  rw [mul_assoc, counted, quarter]
  ring

/-- Numbers that are counted in the unit are compared by what is counted. -/
theorem cast_mul_le_iff {a b : Nat} {t : ℚ} (pos : 0 < t) : (a : ℚ) * t ≤ b * t ↔ a ≤ b := by
  rw [mul_le_mul_iff_left₀ pos, Nat.cast_le]

theorem cast_mul_lt_iff {a b : Nat} {t : ℚ} (pos : 0 < t) : (a : ℚ) * t < b * t ↔ a < b := by
  rw [mul_lt_mul_iff_left₀ pos, Nat.cast_lt]

variable {f}

theorem roundsTo_iff {v : ℚ} {m : Nat} {q : Int} :
    f.RoundsTo v m q ↔
      if m % 2 = 0 then (m - f.lowerReach m q) * 2 ^ q ≤ v ∧ v ≤ (m + 1 / 2) * 2 ^ q
      else (m - f.lowerReach m q) * 2 ^ q < v ∧ v < (m + 1 / 2) * 2 ^ q := by
  split
  · next even => exact ⟨fun h => ⟨h.low, h.high⟩, fun h => ⟨h.1, h.2, fun _ => even, fun _ => even⟩⟩
  · next odd =>
      constructor
      · intro h
        exact ⟨lt_of_le_of_ne h.low fun e => odd (h.even_low e),
          lt_of_le_of_ne h.high fun e => odd (h.even_high e)⟩
      · intro h
        exact roundsTo_of_lt h.1 h.2

/-- A multiple lies inside exactly where it is rounded to the number. -/
theorem inside_iff {m : Nat} (pos : 0 < m) {q k : Int} {d : Nat} :
    f.inside m q k (d * gridStep q k) = true ↔ f.RoundsTo (d * 10 ^ k) m q := by
  have unit := gridUnit_pos q k
  have low : (m - f.lowerReach m q) * 2 ^ q =
      (((4 * m - if m = 2 ^ (f.precision - 1) ∧ f.minExponent < q then 1 else 2) *
        gridScale q k : Nat) : ℚ) * gridUnit q k := by
    rw [gridScale_mul_gridUnit, lowerReach]
    split
    · rw [Nat.cast_sub (by omega)]
      push_cast
      ring
    · rw [Nat.cast_sub (by omega)]
      push_cast
      ring
  have high : ((m : ℚ) + 1 / 2) * 2 ^ q = (((4 * m + 2) * gridScale q k : Nat) : ℚ) *
      gridUnit q k := by
    rw [gridScale_mul_gridUnit]
    push_cast
    ring
  rw [roundsTo_iff, low, high, ← gridStep_mul_gridUnit, cast_mul_le_iff unit, cast_mul_le_iff unit,
    cast_mul_lt_iff unit, cast_mul_lt_iff unit, inside]
  split <;> simp only [Bool.and_eq_true, decide_eq_true_eq]

/-- How far the number lies from its neighbours on a grid. -/
theorem sub_floor (m : Nat) (q k : Int) :
    (m : ℚ) * 2 ^ q - (4 * m * gridScale q k / gridStep q k : Nat) * 10 ^ k =
      (4 * m * gridScale q k % gridStep q k : Nat) * gridUnit q k := by
  have counted := gridScale_mul_gridUnit (4 * m) q k
  rw [← Nat.div_add_mod' (4 * m * gridScale q k) (gridStep q k), Nat.cast_add, add_mul,
    gridStep_mul_gridUnit] at counted
  rw [sub_eq_iff_eq_add', counted]
  push_cast
  ring

theorem gridUnit_mul_step (q k : Int) : gridStep q k * gridUnit q k = 10 ^ k := by
  have one := gridStep_mul_gridUnit 1 q k
  rwa [Nat.one_mul, Nat.cast_one, one_mul] at one

/-- Which neighbour on a grid is taken, a tie going up. -/
theorem neighbour_up {d rest step x : Nat} {low high : Bool}
    (h : neighbour .up d rest step low high = some x) :
    (x = d ∧ low = true ∧ (high = true → 2 * rest < step)) ∨
      x = d + 1 ∧ high = true ∧ (low = true → step ≤ 2 * rest) := by
  cases low <;> cases high
  · cases h
  · exact .inr ⟨(Option.some.inj h).symm, rfl, fun e => absurd e (by decide)⟩
  · exact .inl ⟨(Option.some.inj h).symm, rfl, fun e => absurd e (by decide)⟩
  · simp only [neighbour] at h
    split at h
    · next less => exact .inl ⟨(Option.some.inj h).symm, rfl, fun _ => less⟩
    · next less =>
        split at h <;> exact .inr ⟨(Option.some.inj h).symm, rfl, fun _ => Nat.not_lt.1 less⟩

theorem neighbour_none {tie : Tie} {d rest step : Nat} {low high : Bool}
    (h : neighbour tie d rest step low high = none) : low = false ∧ high = false := by
  cases low <;> cases high
  · exact ⟨rfl, rfl⟩
  · cases h
  · cases h
  · simp only [neighbour] at h
    split at h
    · cases h
    · split at h
      · cases h
      · cases tie <;> cases h

/-- Every multiple lies on one side of the number, beyond the neighbour there. -/
theorem floor_or_ceil (m d : Nat) (q k : Int) :
    (d : ℚ) * 10 ^ k ≤ (4 * m * gridScale q k / gridStep q k : Nat) * 10 ^ k ∨
      ((4 * m * gridScale q k / gridStep q k + 1 : Nat) : ℚ) * 10 ^ k ≤ d * 10 ^ k := by
  have pos := ten_zpow_pos k
  rcases Nat.lt_or_ge (4 * m * gridScale q k / gridStep q k) d with gt | le
  · exact .inr (mul_le_mul_of_nonneg_right (by exact_mod_cast gt) pos.le)
  · exact .inl (mul_le_mul_of_nonneg_right (by exact_mod_cast le) pos.le)

theorem floor_le (m : Nat) (q k : Int) :
    (4 * m * gridScale q k / gridStep q k : Nat) * (10 : ℚ) ^ k ≤ m * 2 ^ q := by
  have pos := gridUnit_pos q k
  have rest := sub_floor m q k
  have : (0 : ℚ) ≤ (4 * m * gridScale q k % gridStep q k : Nat) * gridUnit q k := by positivity
  linarith

theorem ceil_sub (m : Nat) (q k : Int) :
    ((4 * m * gridScale q k / gridStep q k + 1 : Nat) : ℚ) * 10 ^ k - m * 2 ^ q =
      (gridStep q k - (4 * m * gridScale q k % gridStep q k : Nat)) * gridUnit q k := by
  have rest := sub_floor m q k
  rw [sub_mul, gridUnit_mul_step, ← rest]
  push_cast
  ring

theorem lt_ceil (m : Nat) (q k : Int) :
    (m : ℚ) * 2 ^ q < ((4 * m * gridScale q k / gridStep q k + 1 : Nat) : ℚ) * 10 ^ k := by
  have small : ((4 * m * gridScale q k % gridStep q k : Nat) : ℚ) < gridStep q k := by
    exact_mod_cast Nat.mod_lt _ (gridStep_pos q k)
  have := mul_pos (sub_pos.2 small) (gridUnit_pos q k)
  have := ceil_sub m q k
  linarith

/-- **A hit is the nearest multiple** that is rounded to the number, a tie going up. -/
theorem gridHit?_up {m d : Nat} (pos : 0 < m) {q k : Int}
    (h : f.gridHit? .up m q k = some d) :
    f.RoundsTo (d * 10 ^ k) m q ∧ ∀ n : Nat, f.RoundsTo (n * 10 ^ k) m q →
      Preferred (m * 2 ^ q) (d * 10 ^ k) (n * 10 ^ k) := by
  have self : f.RoundsTo (m * 2 ^ q) m q := roundsTo_self m q
  have floor := floor_le m q k
  have ceil := lt_ceil m q k
  have below := sub_floor m q k
  have above := ceil_sub m q k
  have unit := gridUnit_pos q k
  rw [gridHit?_eq] at h
  rcases neighbour_up h with ⟨rfl, low, nearer⟩ | ⟨rfl, high, nearer⟩
  · refine ⟨(inside_iff pos).1 low, fun n hn => ?_⟩
    rcases floor_or_ceil m n q k with le | ge
    · exact preferred_of_below le floor
    · have high := (inside_iff pos).2 (self.between hn ceil.le ge)
      have less : (2 * (4 * m * gridScale q k % gridStep q k : Nat) : ℚ) < gridStep q k := by
        exact_mod_cast nearer high
      rw [two_mul, ← lt_sub_iff_add_lt] at less
      have shorter := mul_lt_mul_of_pos_right less unit
      rw [← below, ← above] at shorter
      exact preferred_of_nearer_below floor (shorter.trans_le (sub_le_sub_right ge _))
  · refine ⟨(inside_iff pos).1 high, fun n hn => ?_⟩
    rcases floor_or_ceil m n q k with le | ge
    · have low := (inside_iff pos).2 (hn.between self le floor)
      have less : (gridStep q k : ℚ) ≤ 2 * (4 * m * gridScale q k % gridStep q k : Nat) := by
        exact_mod_cast nearer low
      rw [two_mul, ← sub_le_iff_le_add] at less
      have shorter := mul_le_mul_of_nonneg_right less unit.le
      rw [← below, ← above] at shorter
      exact preferred_of_nearer_above ceil.le (shorter.trans (sub_le_sub_left le _))
    · exact preferred_of_above ceil.le ge

/-- Where there is no hit, no multiple is rounded to the number. -/
theorem gridHit?_none {tie : Tie} {m : Nat} (pos : 0 < m) {q k : Int}
    (h : f.gridHit? tie m q k = none) (n : Nat) : ¬ f.RoundsTo (n * 10 ^ k) m q := by
  intro hn
  have self : f.RoundsTo (m * 2 ^ q) m q := roundsTo_self m q
  rw [gridHit?_eq] at h
  obtain ⟨low, high⟩ := neighbour_none h
  rcases floor_or_ceil m n q k with le | ge
  · have inside := (inside_iff pos).2 (hn.between self le (floor_le m q k))
    rw [low] at inside
    cases inside
  · have inside := (inside_iff pos).2 (self.between hn (lt_ceil m q k).le ge)
    rw [high] at inside
    cases inside

/-- A grid that is finer than the interval has a hit. -/
theorem exists_roundsTo {m : Nat} {q k : Int}
    (fine : (10 : ℚ) ^ k < (f.lowerReach m q + 1 / 2) * 2 ^ q) :
    ∃ n : Nat, f.RoundsTo (n * 10 ^ k) m q := by
  have low : (m - f.lowerReach m q) * 2 ^ q < (m : ℚ) * 2 ^ q := low_lt_self m q
  have high : (m : ℚ) * 2 ^ q < (m + 1 / 2) * 2 ^ q := self_lt_high m q
  rcases lt_or_ge ((m - f.lowerReach m q) * 2 ^ q)
    ((4 * m * gridScale q k / gridStep q k : Nat) * (10 : ℚ) ^ k) with near | far
  · exact ⟨_, roundsTo_of_lt near ((floor_le m q k).trans_lt high)⟩
  · refine ⟨_, roundsTo_of_lt (low.trans (lt_ceil m q k)) ?_⟩
    calc ((4 * m * gridScale q k / gridStep q k + 1 : Nat) : ℚ) * 10 ^ k
        = (4 * m * gridScale q k / gridStep q k : Nat) * 10 ^ k + 10 ^ k := by push_cast; ring
      _ < (m - f.lowerReach m q) * 2 ^ q + (f.lowerReach m q + 1 / 2) * 2 ^ q :=
        add_lt_add_of_le_of_lt far fine
      _ = (m + 1 / 2) * 2 ^ q := by ring

/-! ### The search -/

/-- **The first hit** lies on the first grid that has one. -/
theorem firstHit_spec {tie : Tie} {m : Nat} (pos : 0 < m) {q : Int} {fuel : Nat} {k j : Int}
    (le : j ≤ k) (reached : k < j + fuel) {n : Nat} (hit : f.RoundsTo (n * 10 ^ j) m q) :
    ∃ i d, j ≤ i ∧ i ≤ k ∧ f.firstHit tie m q fuel k = ⟨d, i⟩ ∧ f.gridHit? tie m q i = some d ∧
      ∀ l, i < l → l ≤ k → ∀ n : Nat, ¬ f.RoundsTo (n * 10 ^ l) m q := by
  induction fuel generalizing k with
  | zero => omega
  | succ fuel ih =>
      cases found : f.gridHit? tie m q k with
      | some d => exact ⟨k, d, le, Int.le_refl k, by rw [firstHit, found], found, by omega⟩
      | none =>
          have none_here := gridHit?_none pos found
          have below : j ≤ k - 1 := by
            by_contra h
            obtain rfl : j = k := by omega
            exact none_here n hit
          obtain ⟨i, d, hij, hik, first, hit, coarser⟩ := ih below (by push_cast at reached; omega)
          refine ⟨i, d, hij, by omega, by rw [firstHit, found, first], hit, fun l hl hlk => ?_⟩
          rcases Int.lt_or_eq_of_le hlk with lt | rfl
          · exact coarser l hl (by omega)
          · exact none_here

/-! ### The shortest decimal -/

variable (f) in
/-- `a` is the multiple of `10 ^ k` that is preferred among those that are rounded to `m · 2 ^ q`,
and nothing else on a coarser grid is rounded to it. -/
structure ShortestOn (m : Nat) (q k : Int) (a : ℚ) : Prop where
  multiple  : ∃ d : Nat, a = d * 10 ^ k
  rounds    : f.RoundsTo a m q
  preferred : ∀ n : Nat, f.RoundsTo (n * 10 ^ k) m q → Preferred (m * 2 ^ q) a (n * 10 ^ k)
  coarsest  : ∀ j, k < j → ∀ n : Nat, f.RoundsTo (n * 10 ^ j) m q → n * 10 ^ j = a

/-- Two numbers of one interval are no farther apart than a unit. -/
theorem RoundsTo.sub_le {v w : ℚ} {m : Nat} {q : Int} (hv : f.RoundsTo v m q)
    (hw : f.RoundsTo w m q) : v - w ≤ 2 ^ q := by
  have reach := f.lowerReach_le m q
  calc v - w ≤ (m + 1 / 2) * 2 ^ q - (m - f.lowerReach m q) * 2 ^ q := sub_le_sub hv.high hw.low
    _ = (1 / 2 + f.lowerReach m q) * 2 ^ q := by ring
    _ ≤ 2 ^ q := mul_le_of_le_one_left (two_zpow_pos q).le (by linarith)

/-- On a grid that is wider than the interval there is one multiple at most. -/
theorem RoundsTo.eq_of_wide {m a b : Nat} {q k : Int} (wide : (2 : ℚ) ^ q < 10 ^ k)
    (ha : f.RoundsTo (a * 10 ^ k) m q) (hb : f.RoundsTo (b * 10 ^ k) m q) : a = b := by
  have pos := ten_zpow_pos k
  have le {x y : Nat} (hx : f.RoundsTo (x * 10 ^ k) m q) (hy : f.RoundsTo (y * 10 ^ k) m q) :
      x ≤ y := by
    have apart := (hx.sub_le hy).trans_lt wide
    have : (x : ℚ) < y + 1 := by
      refine lt_of_mul_lt_mul_right ?_ pos.le
      rw [add_mul, one_mul]
      exact sub_lt_iff_lt_add'.1 apart
    exact Nat.le_of_lt_succ (by exact_mod_cast this)
  exact le_antisymm (le ha hb) (le hb ha)

/-- Zero is rounded to no other number. -/
theorem RoundsTo.pos {m : Nat} (pos : 0 < m) {q : Int} {v : ℚ} (h : f.RoundsTo v m q) : 0 < v := by
  have reach := f.lowerReach_le m q
  have one : (1 : ℚ) ≤ m := by exact_mod_cast pos
  exact lt_of_lt_of_le (mul_pos (by linarith) (two_zpow_pos q)) h.low

/-- A multiple of a greater power of ten than the number has lies beyond the next such power. -/
theorem RoundsTo.next_power {m n : Nat} (pos : 0 < m) {q l j : Int}
    (lt : (m : ℚ) * 2 ^ q < 10 ^ (l + 1)) (above : l < j) (h : f.RoundsTo (n * 10 ^ j) m q) :
    f.RoundsTo ((10 : Nat) * 10 ^ l) m q := by
  have next : ((10 : Nat) : ℚ) * 10 ^ l = 10 ^ (l + 1) := by
    rw [ten_zpow_add, zpow_one, mul_comm]
    rfl
  have one : (1 : ℚ) ≤ n := by
    have := pos_of_mul_pos_left (h.pos pos) (ten_zpow_pos j).le
    exact_mod_cast Nat.succ_le_of_lt (by exact_mod_cast this)
  rw [next]
  refine (roundsTo_self m q).between h lt.le ?_
  calc (10 : ℚ) ^ (l + 1) ≤ 10 ^ j := zpow_le_zpow_right₀ (by norm_num) above
    _ ≤ n * 10 ^ j := le_mul_of_one_le_left (ten_zpow_pos j).le one

/-- A multiple on a grid lies on every finer one. -/
theorem exists_multiple (n : Nat) {l j : Int} (le : l ≤ j) :
    ∃ d : Nat, (n : ℚ) * 10 ^ j = d * 10 ^ l := by
  obtain ⟨t, rfl⟩ := Int.le.dest le
  refine ⟨n * 10 ^ t, ?_⟩
  rw [ten_zpow_add, zpow_natCast]
  push_cast
  ring

end BinaryFormat

namespace Double

open BinaryFormat (binary64)

/-- Sixteen digits behind the first, a grid is finer than the interval. -/
theorem fine_of_le {m : Nat} {q l : Int} (bits : m < 2 ^ 53) (le : (10 : ℚ) ^ l ≤ m * 2 ^ q) :
    (10 : ℚ) ^ (l - 16) < (binary64.lowerReach m q + 1 / 2) * 2 ^ q := by
  have reach : (m : ℚ) / 10 ^ 16 < binary64.lowerReach m q + 1 / 2 := by
    rw [BinaryFormat.lowerReach]
    split
    · next h =>
        rw [h.1]
        norm_num [binary64]
    · have most : (m : ℚ) < 2 ^ 53 := by exact_mod_cast bits
      rw [div_lt_iff₀ (by norm_num)]
      linarith
  have shifted : (10 : ℚ) ^ l = 10 ^ (l - 16) * 10 ^ 16 := by
    rw [← zpow_natCast, ← ten_zpow_add]
    congr 1
    omega
  calc (10 : ℚ) ^ (l - 16) ≤ m / 10 ^ 16 * 2 ^ q := by
        rw [div_mul_eq_mul_div, le_div_iff₀ (by norm_num), ← shifted]
        exact le
    _ < (binary64.lowerReach m q + 1 / 2) * 2 ^ q := mul_lt_mul_of_pos_right reach (two_zpow_pos q)

/-- **The shortest decimal of a number of 64 bits**, where this keeps all its bits. -/
theorem shortest_spec {m : Nat} {q : Int} (normal : 2 ^ 52 ≤ m) (bits : m < 2 ^ 53) :
    ∃ k, leadingExponent (m * 2 ^ q.toNat) (2 ^ (-q).toNat) - 16 ≤ k ∧
      k ≤ (binary64.shortest .up m q).exponent ∧
      binary64.ShortestOn m q k (binary64.shortest .up m q).value := by
  have pos : 0 < m := by omega
  have hnum : 0 < m * 2 ^ q.toNat := Nat.mul_pos pos (Nat.two_pow_pos _)
  have ge := ten_zpow_leadingExponent_le hnum (Nat.two_pow_pos (-q).toNat)
  have lt := lt_ten_zpow_leadingExponent hnum (Nat.two_pow_pos (-q).toNat)
  rw [BinaryFormat.quotient_eq] at ge lt
  have search : binary64.shortest .up m q = (binary64.firstHit .up m q 17
      (leadingExponent (m * 2 ^ q.toNat) (2 ^ (-q).toNat))).stripZeros 17 := if_neg pos.ne'
  rw [search, Decimal.value_stripZeros]
  generalize leadingExponent (m * 2 ^ q.toNat) (2 ^ (-q).toNat) = l at *
  have wide : (2 : ℚ) ^ q < 10 ^ l := by
    have least : (2 : ℚ) ^ 52 ≤ m := by exact_mod_cast normal
    have unit := two_zpow_pos q
    rw [ten_zpow_add, zpow_one] at lt
    nlinarith
  obtain ⟨n, fine⟩ := BinaryFormat.exists_roundsTo (fine_of_le bits ge)
  obtain ⟨k, d, low, high, first, hit, finer⟩ :
      ∃ k d, l - 16 ≤ k ∧ k ≤ l ∧ binary64.firstHit .up m q 17 l = ⟨d, k⟩ ∧
        binary64.gridHit? .up m q k = some d ∧
        ∀ j, k < j → j ≤ l → ∀ n : Nat, ¬ binary64.RoundsTo (n * 10 ^ j) m q :=
    BinaryFormat.firstHit_spec pos (by omega) (by omega) fine
  obtain ⟨rounds, preferred⟩ := BinaryFormat.gridHit?_up pos hit
  rw [first]
  refine ⟨k, low, Decimal.exponent_le_stripZeros 17 ⟨d, k⟩, ⟨d, rfl⟩, rounds, preferred, ?_⟩
  intro j hj n hn
  rcases Int.lt_or_le l j with above | below
  · -- the power of ten beyond the number would be a hit on the first grid, which has only one
    have ten := hn.next_power pos lt above
    obtain rfl : k = l := by
      by_contra other
      exact finer l (by omega) (Int.le_refl l) 10 ten
    obtain ⟨e, counted⟩ := BinaryFormat.exists_multiple n above.le
    rw [counted] at hn ⊢
    rw [rounds.eq_of_wide wide hn]
    rfl
  · exact absurd hn (finer j hj below n)

end Double

end PreparedSql
