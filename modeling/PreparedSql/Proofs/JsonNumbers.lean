import PreparedSql.Proofs.Numerals
import PreparedSql.Proofs.Scaling

/-!
# A number of a document is read back

The text of a number is digits, perhaps with a point and more digits, or with an exponent; the
reader takes it apart at the first character that is not a digit.  What it puts together from the
parts is the integer itself, or the number that the shortest digits stand for, rounded and scaled.
The reader refuses a number beyond the largest finite one, so it must be shown that none of the
numbers written is rounded up to one: two roundings cannot take a number from below the overflow to
it, unless it is one of the largest two, which are read back by computation.

* `Json.number?_of_parts`: a number without dropped digits is made of its parts.
* `Json.number?_integer`: an integer is read back as itself.
* `Decimal.writesPoint_plainWith`: a number written without an exponent has a point, and its digits
  write its value.
* `Json.real?_shortest`: the shortest digits of a finite number are read as a finite number.
* `Json.readable_numberChars`: the text of a number is read as a number, with all that may follow.
-/

namespace PreparedSql

namespace Json

/-- What may follow a number: nothing that could be a part of it. -/
def EndsNumber (rest : List Char) : Prop :=
  ∀ c ∈ rest.head?, c.isDigit = false ∧ c ≠ '.' ∧ c ≠ 'e' ∧ c ≠ 'E'

theorem EndsNumber.noDigitAhead {rest : List Char} (h : EndsNumber rest) : NoDigitAhead rest :=
  fun c hc => (h c hc).1

/-! ### The parts of a number -/

theorem appendDigits_eq {n : Nat} {ds : List Char}
    (h : n * 10 ^ ds.length + digitsValue ds < 2 ^ 64) :
    appendDigits n ds = (n * 10 ^ ds.length + digitsValue ds, 0) := by
  induction ds generalizing n with
  | nil => simp [appendDigits, digitsValue]
  | cons d ds ih =>
      have value : digitsValue (d :: ds) = digitValue d * 10 ^ ds.length + digitsValue ds := by
        rw [← List.singleton_append, digitsValue_append]
        simp [digitsValue]
      have next : n * 10 ^ (d :: ds).length + digitsValue (d :: ds) =
          (10 * n + digitValue d) * 10 ^ ds.length + digitsValue ds := by
        rw [value, List.length_cons, pow_succ]
        ring
      rw [next] at h ⊢
      have fits : 10 * n + digitValue d < 2 ^ 64 :=
        Nat.lt_of_le_of_lt (Nat.le_trans (Nat.le_mul_of_pos_right _ (Nat.pow_pos (by decide)))
          (Nat.le_add_right _ _)) h
      rw [appendDigits]
      simp only [fits, if_true]
      exact ih h

theorem appendDigits_zero {ds : List Char} (h : digitsValue ds < 2 ^ 64) :
    appendDigits 0 ds = (digitsValue ds, 0) := by
  rw [appendDigits_eq (by rwa [Nat.zero_mul, Nat.zero_add]), Nat.zero_mul, Nat.zero_add]

theorem exponentPart?_of_ends {rest : List Char} (h : EndsNumber rest) :
    exponentPart? rest = some (none, rest) := by
  unfold exponentPart?
  split
  · exact absurd rfl (h 'e' rfl).2.2.1
  · exact absurd rfl (h 'E' rfl).2.2.2
  · rfl

theorem fractionPart?_of_ends {rest : List Char} (whole : Nat) (h : '.' ∉ rest.head?) :
    fractionPart? whole rest = some (whole, none, rest) := by
  unfold fractionPart?
  split
  · exact absurd rfl h
  · rfl

theorem fractionPart?_point {ws fs rest : List Char} (fraction : AllDigits fs) (ne : fs ≠ [])
    (stop : NoDigitAhead rest) (fits : digitsValue (ws ++ fs) < 2 ^ 64) :
    fractionPart? (digitsValue ws) ('.' :: (fs ++ rest)) =
      some (digitsValue (ws ++ fs), some fs.length, rest) := by
  have places : (fs ++ rest).takeWhile Char.isDigit = fs := fraction.takeWhile_append stop
  rw [digitsValue_append] at fits ⊢
  simp only [fractionPart?, places, List.isEmpty_eq_false_iff.2 ne, Bool.false_eq_true, if_false,
    appendDigits_eq fits, Nat.sub_zero, List.drop_left]

theorem exponent?_signed (e : Int) {rest : List Char} (stop : NoDigitAhead rest) :
    exponent? ((if e < 0 then '-' else '+') :: (decimalDigits e.natAbs ++ rest)) =
      some (e, rest) := by
  have run := (allDigits_decimalDigits e.natAbs).takeWhile_append stop
  have ne := List.isEmpty_eq_false_iff.2 (decimalDigits_ne_nil e.natAbs)
  split
  · next negative =>
      simp only [exponent?, splitSign, run, ne, List.drop_left, digitsValue_decimalDigits,
        Bool.false_eq_true, if_false, if_true]
      congr 2
      omega
  · next positive =>
      simp only [exponent?, splitSign, run, ne, List.drop_left, digitsValue_decimalDigits,
        Bool.false_eq_true, if_false]
      congr 2
      omega

theorem exponentPart?_signed (e : Int) {rest : List Char} (stop : NoDigitAhead rest) :
    exponentPart? ('e' :: (if e < 0 then '-' else '+') :: (decimalDigits e.natAbs ++ rest)) =
      some (some e, rest) := by
  rw [exponentPart?, exponent?_signed e stop, Option.map_some]

/-! ### A whole number in front -/

/-- A number is made of its parts, none of which drops a digit. -/
theorem number?_of_parts {ws cs ds rest : List Char} {n : Nat} {places : Option Nat}
    {e : Option Int} (negative : Bool) (whole : WholeDigits ws) (stop : NoDigitAhead cs)
    (fits : digitsValue ws < 2 ^ 64)
    (fraction : fractionPart? (digitsValue ws) cs = some (n, places, ds))
    (exponent : exponentPart? ds = some (e, rest)) :
    number? negative (ws ++ cs) = (ofParts? negative n places e 0).map (·, rest) := by
  have digits : (ws ++ cs).takeWhile Char.isDigit = ws := whole.digits.takeWhile_append stop
  have front : (!ws.isEmpty && (ws.length = 1 || ws.head? ≠ some '0')) = true := by
    simpa [whole.ne_nil] using whole.head
  simp only [number?, digits, front, if_true, appendDigits_zero fits, List.drop_left, fraction,
    exponent, Option.bind_eq_bind, Option.bind_some]

theorem ofParts?_integer (negative : Bool) (n : Nat) :
    ofParts? negative n none none 0 =
      if !negative then JsonNumber.ofInt? n
      else if 0 < n ∧ n ≤ 2 ^ 63 then JsonNumber.ofInt? (-n)
      else real? true n 0 :=
  rfl

theorem ofParts?_point (negative : Bool) (n places : Nat) (e : Option Int) :
    ofParts? negative n (some places) e 0 = real? negative n (-places + e.getD 0) := by
  simp [ofParts?]

theorem ofParts?_exponent (negative : Bool) (n : Nat) (e : Int) :
    ofParts? negative n none (some e) 0 = real? negative n e := by
  simp [ofParts?]

/-- An integer of a document is read back. -/
theorem number?_integer {n : Int} (fits : -2 ^ 63 ≤ n ∧ n < 2 ^ 64) {rest : List Char}
    (ends : EndsNumber rest) :
    number? (n < 0) (decimalDigits n.natAbs ++ rest) = some (.integer n fits, rest) := by
  have value := digitsValue_decimalDigits n.natAbs
  have small : digitsValue (decimalDigits n.natAbs) < 2 ^ 64 := by omega
  have point : '.' ∉ rest.head? := fun h => (ends '.' h).2.1 rfl
  have read : ofParts? (n < 0) n.natAbs none none 0 = some (.integer n fits) := by
    rw [ofParts?_integer]
    rcases lt_or_ge n 0 with negative | positive
    · have range : 0 < n.natAbs ∧ n.natAbs ≤ 2 ^ 63 := by omega
      have magnitude : -(n.natAbs : Int) = n := by omega
      rw [decide_eq_true negative, if_neg (by decide), if_pos range, magnitude]
      exact dif_pos fits
    · have magnitude : (n.natAbs : Int) = n := by omega
      rw [decide_eq_false (not_lt.2 positive), if_pos (by decide), magnitude]
      exact dif_pos fits
  rw [number?_of_parts _ (wholeDigits_decimalDigits _) ends.noDigitAhead small
    (fractionPart?_of_ends _ point) (exponentPart?_of_ends ends), value, read, Option.map_some]

/-- A number with a point. -/
theorem number?_point {ws fs rest : List Char} (negative : Bool) (whole : WholeDigits ws)
    (fraction : AllDigits fs) (ne : fs ≠ []) (ends : EndsNumber rest)
    (fits : digitsValue (ws ++ fs) < 2 ^ 64) :
    number? negative (ws ++ '.' :: (fs ++ rest)) =
      (real? negative (digitsValue (ws ++ fs)) (-fs.length)).map (·, rest) := by
  have small := Nat.lt_of_le_of_lt (digitsValue_le_append ws fs) fits
  rw [number?_of_parts negative whole (noDigitAhead_cons (by decide) _) small
    (fractionPart?_point fraction ne ends.noDigitAhead fits) (exponentPart?_of_ends ends),
    ofParts?_point, Option.getD_none, Int.add_zero]

/-- A number with an exponent. -/
theorem number?_withExponent (negative : Bool) {x : Decimal} (h : x.digits < 2 ^ 64)
    {rest : List Char} (ends : EndsNumber rest) :
    number? negative (x.withExponent ++ rest) =
      (real? negative x.digits x.exponent).map (·, rest) := by
  have value := digitsValue_decimalDigits x.digits
  have digits := allDigits_decimalDigits x.digits
  have ne := decimalDigits_ne_nil x.digits
  have exponent := exponentPart?_signed x.leading ends.noDigitAhead
  rw [← value] at h
  unfold Decimal.withExponent
  have leading : x.leading = (decimalDigits x.digits).length - 1 + x.exponent := rfl
  generalize decimalDigits x.digits = all at value digits ne leading h ⊢
  -- one digit stands without a point; of more, all but the first stand behind one
  match all with
  | [] => exact absurd rfl ne
  | [d] =>
      have whole := wholeDigits_singleton (digits d List.mem_cons_self)
      have read := number?_of_parts negative whole (noDigitAhead_cons (by decide) _) h
        (fractionPart?_of_ends _ (by simp)) exponent
      have one : x.leading = x.exponent := by
        rw [leading]
        simp
      refine read.trans ?_
      rw [ofParts?_exponent, value, one]
  | d :: d' :: ds =>
      have whole := wholeDigits_singleton (digits d List.mem_cons_self)
      have fraction : AllDigits (d' :: ds) := fun c hc => digits c (List.mem_cons_of_mem d hc)
      have small := Nat.lt_of_le_of_lt (digitsValue_le_append [d] (d' :: ds)) h
      have read := number?_of_parts negative whole (noDigitAhead_cons (by decide) _) small
        (fractionPart?_point fraction (List.cons_ne_nil _ _) (noDigitAhead_cons (by decide) _) h)
        exponent
      have places : -((d' :: ds).length : Int) + x.leading = x.exponent := by
        rw [leading]
        simp only [List.length_cons]
        push_cast
        ring
      refine (congrArg (number? negative) ?_).trans (read.trans ?_)
      · simp
      · rw [ofParts?_point, Option.getD_some, places, List.singleton_append, value]

end Json

/-! ### Finite numbers -/

/-- Digits, a point and digits, which write `v` with a significand of 64 bits. -/
def WritesPoint (cs : List Char) (v : ℚ) : Prop :=
  ∃ ws fs, cs = ws ++ '.' :: fs ∧ WholeDigits ws ∧ AllDigits fs ∧ fs ≠ [] ∧
    digitsValue (ws ++ fs) < 2 ^ 64 ∧ (digitsValue (ws ++ fs) : ℚ) * 10 ^ (-(fs.length : Int)) = v

namespace Decimal

variable {x : Decimal}

/-- The digits of a whole number, with its zeros. -/
def wholePart (x : Decimal) : List Char :=
  if x.digits = 0 then decimalDigits x.digits
  else decimalDigits x.digits ++ List.replicate x.exponent.toNat '0'

theorem wholeDigits_wholePart (x : Decimal) : WholeDigits x.wholePart := by
  rw [wholePart]
  split
  · exact wholeDigits_decimalDigits _
  · next h =>
      exact
        { digits := List.forall_mem_append.2 ⟨allDigits_decimalDigits _, allDigits_zeros _⟩
          ne_nil := List.append_ne_nil_of_left_ne_nil (decimalDigits_ne_nil _) _
          head   := .inr (by
            rw [List.head?_append_of_ne_nil _ (decimalDigits_ne_nil _)]
            exact head?_decimalDigits h) }

theorem digitsValue_wholePart (x : Decimal) :
    digitsValue x.wholePart = x.digits * 10 ^ x.exponent.toNat := by
  rw [wholePart]
  split
  · next h => rw [digitsValue_decimalDigits, h, Nat.zero_mul]
  · rw [digitsValue_append, digitsValue_decimalDigits, digitsValue_zeros, List.length_replicate,
      Nat.add_zero]

/-- A number whose first digit stands at a place is below the next place. -/
theorem value_lt (x : Decimal) : x.value < 10 ^ (x.leading + 1) := by
  have digits : (x.digits : ℚ) < 10 ^ ((decimalDigits x.digits).length : Int) := by
    rw [zpow_natCast]
    exact_mod_cast lt_ten_pow_decimalLength x.digits
  calc x.value < 10 ^ ((decimalDigits x.digits).length : Int) * 10 ^ x.exponent :=
        mul_lt_mul_of_pos_right digits (ten_zpow_pos _)
    _ = 10 ^ (x.leading + 1) := by
        rw [← ten_zpow_add, leading]
        congr 1
        ring

/-- A whole number gets a point and a zero. -/
theorem writesPoint_whole (window : x.leading ≤ 15) (h : 0 ≤ x.exponent) :
    WritesPoint (x.plainWith ['.', '0']) x.value := by
  obtain ⟨e, he⟩ := Int.eq_ofNat_of_zero_le h
  have value : x.value = ((x.digits * 10 ^ e : Nat) : ℚ) := by
    rw [Decimal.value, he, zpow_natCast]
    push_cast
    ring
  have small : x.digits * 10 ^ e < 10 ^ 16 := by
    have lt : x.value < 10 ^ ((16 : Nat) : Int) :=
      x.value_lt.trans_le (zpow_le_zpow_right₀ (by norm_num) (by push_cast; omega))
    rw [value, zpow_natCast] at lt
    exact_mod_cast lt
  have shifted : digitsValue (x.wholePart ++ ['0']) = x.digits * 10 ^ e * 10 := by
    rw [digitsValue_append, digitsValue_wholePart, he]
    rfl
  have zero : AllDigits ['0'] := List.forall_mem_singleton.2 (by decide)
  refine ⟨x.wholePart, ['0'], if_pos h, x.wholeDigits_wholePart, zero, List.cons_ne_nil _ _, ?_, ?_⟩
  · rw [shifted]
    omega
  · rw [shifted, value, List.length_singleton, zpow_neg]
    push_cast
    field_simp

/-- What is written with a point, where the exponent is negative. -/
theorem plainWith_of_places {places : Nat} (h : x.exponent = -places) (pos : 0 < places)
    (whole : List Char) :
    x.plainWith whole =
      let ds := decimalDigits x.digits
      if places < ds.length then
        ds.take (ds.length - places) ++ '.' :: ds.drop (ds.length - places)
      else '0' :: '.' :: (List.replicate (places - ds.length) '0' ++ ds) := by
  have negative : ¬ 0 ≤ x.exponent := by omega
  have same : (-x.exponent).toNat = places := by omega
  rw [plainWith]
  simp only [negative, if_false, same]

/-- The point stands between the digits. -/
theorem writesPoint_inside (digits : x.digits < 2 ^ 64) {places : Nat} (h : x.exponent = -places)
    (pos : 0 < places) (inside : places < (decimalDigits x.digits).length) :
    WritesPoint (x.plainWith ['.', '0']) x.value := by
  have value := digitsValue_decimalDigits x.digits
  have all := allDigits_decimalDigits x.digits
  have head : (decimalDigits x.digits).head? ≠ some '0' := by
    refine head?_decimalDigits ?_
    intro zero
    rw [zero] at inside
    exact absurd inside (by simp [decimalDigits]; omega)
  rw [plainWith_of_places h pos]
  simp only [inside, if_true]
  generalize decimalDigits x.digits = ds at value all head inside ⊢
  have front : ds.take (ds.length - places) ≠ [] := by
    refine List.ne_nil_of_length_pos ?_
    rw [List.length_take]
    omega
  have length : (ds.drop (ds.length - places)).length = places := by
    rw [List.length_drop]
    omega
  have whole : AllDigits (ds.take (ds.length - places)) := fun c hc =>
    all c (List.mem_of_mem_take hc)
  have fraction : AllDigits (ds.drop (ds.length - places)) := fun c hc =>
    all c (List.mem_of_mem_drop hc)
  refine ⟨_, _, rfl, ⟨whole, front, .inr ?_⟩, fraction, List.ne_nil_of_length_pos (by omega),
    ?_, ?_⟩
  · rwa [List.head?_take, if_neg (by omega)]
  · rwa [List.take_append_drop, value]
  · rw [List.take_append_drop, value, length, Decimal.value, h]

/-- Zeros stand between the point and the digits. -/
theorem writesPoint_below (digits : x.digits < 2 ^ 64) {places : Nat} (h : x.exponent = -places)
    (pos : 0 < places) (below : (decimalDigits x.digits).length ≤ places) :
    WritesPoint (x.plainWith ['.', '0']) x.value := by
  have value := digitsValue_decimalDigits x.digits
  have all := allDigits_decimalDigits x.digits
  have ne := decimalDigits_ne_nil x.digits
  rw [plainWith_of_places h pos]
  simp only [not_lt.2 below, if_false]
  generalize decimalDigits x.digits = ds at value all ne below ⊢
  have length : (List.replicate (places - ds.length) '0' ++ ds).length = places := by
    rw [List.length_append, List.length_replicate]
    omega
  have written : digitsValue (['0'] ++ (List.replicate (places - ds.length) '0' ++ ds)) =
      x.digits := by
    rw [← List.append_assoc, ← List.replicate_one, List.replicate_append_replicate,
      digitsValue_append, digitsValue_zeros, Nat.zero_mul, Nat.zero_add, value]
  have fraction : AllDigits (List.replicate (places - ds.length) '0' ++ ds) :=
    List.forall_mem_append.2 ⟨allDigits_zeros _, all⟩
  refine ⟨['0'], _, rfl, wholeDigits_singleton (by decide), fraction,
    List.append_ne_nil_of_right_ne_nil _ ne, ?_, ?_⟩
  · rwa [written]
  · rw [written, length, Decimal.value, h]

/-- **A number written without an exponent has a point.** -/
theorem writesPoint_plainWith (digits : x.digits < 2 ^ 64) (window : x.leading ≤ 15) :
    WritesPoint (x.plainWith ['.', '0']) x.value := by
  rcases lt_or_ge x.exponent 0 with negative | whole
  · obtain ⟨places, h⟩ : ∃ places : Nat, x.exponent = -places := ⟨(-x.exponent).toNat, by omega⟩
    rcases lt_or_ge places (decimalDigits x.digits).length with inside | below
    · exact writesPoint_inside digits h (by omega) inside
    · exact writesPoint_below digits h (by omega) below
  · exact writesPoint_whole window whole

end Decimal

namespace Json

open Double

/-! ### Room below the overflow -/

/-- A number written without an exponent is far from the overflow. -/
theorem lt_overflow_of_window {v : ℚ} (h : v < 10 ^ (16 : Int)) :
    v * (1 + 1 / 2 ^ 53) ^ 2 < overflow := by
  have small : v * (1 + 1 / 2 ^ 53) ^ 2 < 10 ^ 17 := by
    norm_num at h ⊢
    linarith
  exact (small.trans_le (pow_le_pow_right₀ (by norm_num) (by decide))).trans ten_pow_lt_overflow

/-- All numbers but the largest two leave room for two roundings. -/
theorem lt_overflow_of_finite {m : Nat} {q : Int} (hm : m < 2 ^ 53) (hq : q ≤ 971)
    (other : q = 971 → m + 3 ≤ 2 ^ 53) :
    ((m : ℚ) + 1 / 2) * 2 ^ q * (1 + 1 / 2 ^ 53) ^ 2 < overflow := by
  rw [overflow, mul_right_comm]
  rcases eq_or_lt_of_le hq with rfl | below
  · have m_le : (m : ℚ) + 3 ≤ 2 ^ 53 := by exact_mod_cast other rfl
    refine mul_lt_mul_of_pos_right ?_ (two_zpow_pos 971)
    norm_num at m_le ⊢
    linarith
  · have m_le : (m : ℚ) + 1 ≤ 2 ^ 53 := by exact_mod_cast hm
    have half : (2 : ℚ) ^ q ≤ 2 ^ (971 : Int) / 2 := by
      rw [le_div_iff₀ two_pos, ← zpow_add_one₀ two_ne_zero]
      exact zpow_le_zpow_right₀ one_le_two (by omega)
    have pos := two_zpow_pos 971
    have large : ((m : ℚ) + 1 / 2) * (1 + 1 / 2 ^ 53) ^ 2 ≤ 2 ^ 53 + 2 := by
      norm_num at m_le ⊢
      linarith
    calc ((m : ℚ) + 1 / 2) * (1 + 1 / 2 ^ 53) ^ 2 * 2 ^ q
        ≤ (2 ^ 53 + 2) * (2 ^ (971 : Int) / 2) :=
          mul_le_mul large half (two_zpow_pos q).le (by norm_num)
      _ = (2 ^ 53 + 2) / 2 * 2 ^ (971 : Int) := by ring
      _ < (2 ^ 53 - 1 / 2) * 2 ^ (971 : Int) := mul_lt_mul_of_pos_right (by norm_num) pos

/-- The largest two numbers leave no such room, but are read back all the same. -/
theorem real?_largest (negative : Bool) {m : Nat} (h : m = 2 ^ 53 - 1 ∨ m = 2 ^ 53 - 2) :
    ∃ x, real? negative (BinaryFormat.binary64.shortest .even m 971).digits
      (BinaryFormat.binary64.shortest .even m 971).exponent = some x := by
  have scaled (n : Nat)
      (finite : ((Double.ofRatio false n 1).mul (power 292)).isFinite = true) :
      ∃ y, scale? (.ofRatio false n 1) 292 = some y ∧ y.isFinite = true := by
    rw [scale?]
    exact ⟨_, if_pos finite, finite⟩
  -- the power of ten is one of those with a single multiplication, so either number is computed
  rcases h with rfl | rfl
  · have digits : BinaryFormat.binary64.shortest .even (2 ^ 53 - 1) 971 =
        ⟨17976931348623157, 292⟩ := by decide +kernel
    rw [digits]
    exact real?_of_scale? negative (scaled _ (by decide +kernel))
  · have digits : BinaryFormat.binary64.shortest .even (2 ^ 53 - 2) 971 =
        ⟨17976931348623155, 292⟩ := by decide +kernel
    rw [digits]
    exact real?_of_scale? negative (scaled _ (by decide +kernel))

/-- The shortest digits of any finite number are read back as a finite number. -/
theorem real?_shortest (negative : Bool) {m : Nat} {q : Int} (hm : m < 2 ^ 53) (hq : q ≤ 971)
    (fits : (BinaryFormat.binary64.shortest .even m q).digits < 2 ^ 64) :
    ∃ x, real? negative (BinaryFormat.binary64.shortest .even m q).digits
      (BinaryFormat.binary64.shortest .even m q).exponent = some x := by
  by_cases other : q = 971 → m + 3 ≤ 2 ^ 53
  · have le := BinaryFormat.binary64.value_shortest_le .even m q
    refine real?_of_scale? negative (scale?_of_lt fits ?_)
    exact (mul_le_mul_of_nonneg_right le (by positivity)).trans_lt
      (lt_overflow_of_finite hm hq other)
  · obtain ⟨rfl, largest⟩ := Classical.not_imp.1 other
    exact real?_largest negative (by omega)

/-! ### The text of a number -/

/-- A text of a magnitude that is read as a number, with a minus sign before it or not. -/
structure Readable (negative : Bool) (cs : List Char) : Prop where
  begins : ∃ d ds, cs = d :: ds ∧ d.isDigit = true
  reads  : ∀ rest, EndsNumber rest → ∃ x, number? negative (cs ++ rest) = some (x, rest)

theorem begins_append {ws : List Char} (h : WholeDigits ws) (rest : List Char) :
    ∃ d ds, ws ++ rest = d :: ds ∧ d.isDigit = true := by
  obtain ⟨d, ds, rfl⟩ := List.exists_cons_of_ne_nil h.ne_nil
  exact ⟨d, ds ++ rest, rfl, h.digits d List.mem_cons_self⟩

theorem readable_integer {n : Int} (fits : -2 ^ 63 ≤ n ∧ n < 2 ^ 64) :
    Readable (n < 0) (decimalDigits n.natAbs) where
  begins := isDigit_head_decimalDigits n.natAbs
  reads  := fun _ ends => ⟨_, number?_integer fits ends⟩

theorem readable_of_writesPoint (negative : Bool) {cs : List Char} {v : ℚ}
    (h : WritesPoint cs v) (room : v * (1 + 1 / 2 ^ 53) ^ 2 < overflow) : Readable negative cs := by
  obtain ⟨ws, fs, rfl, whole, fraction, ne, fits, rfl⟩ := h
  refine ⟨begins_append whole _, fun rest ends => ?_⟩
  obtain ⟨x, read⟩ := real?_of_scale? negative (scale?_of_lt fits room)
  rw [List.append_assoc, List.cons_append, number?_point negative whole fraction ne ends fits, read]
  exact ⟨x, rfl⟩

theorem begins_withExponent (x : Decimal) :
    ∃ d ds, x.withExponent = d :: ds ∧ d.isDigit = true := by
  obtain ⟨d, ds, e, digit⟩ := isDigit_head_decimalDigits x.digits
  rw [Decimal.withExponent, e]
  cases ds with
  | nil => exact ⟨d, _, rfl, digit⟩
  | cons d' ds => exact ⟨d, _, rfl, digit⟩

theorem readable_withExponent (negative : Bool) {x : Decimal} (fits : x.digits < 2 ^ 64)
    (h : ∃ y, real? negative x.digits x.exponent = some y) : Readable negative x.withExponent where
  begins := begins_withExponent x
  reads  := fun rest ends => by
    obtain ⟨y, read⟩ := h
    rw [number?_withExponent negative fits ends, read]
    exact ⟨y, rfl⟩

/-- **A finite number's text is read as a number.** -/
theorem readable_scientific {x : Double} (finite : x.isFinite = true) :
    ∃ s cs, x.scientific = signedText s cs ∧ Readable s cs := by
  obtain ⟨s, m, q, number⟩ := isFinite_iff.1 finite
  obtain ⟨hm, hq⟩ := BinaryFormat.binary64.bounds_of_decode (by decide) number
  have fits : (BinaryFormat.binary64.shortest .even m q).digits < 2 ^ 64 :=
    Nat.lt_of_le_of_lt (BinaryFormat.binary64.digits_shortest_le .even m q) (by decide)
  rw [Double.scientific, number]
  refine ⟨s, _, rfl, ?_⟩
  split
  · next window =>
      refine readable_of_writesPoint s (Decimal.writesPoint_plainWith fits window.2) ?_
      exact lt_overflow_of_window ((Decimal.value_lt _).trans_le
        (zpow_le_zpow_right₀ (by norm_num) (by omega)))
  · exact readable_withExponent s fits (real?_shortest s hm hq fits)

/-- **The text of a number is read as a number.** -/
theorem readable_numberChars (n : JsonNumber) :
    ∃ s cs, numberChars n = signedText s cs ∧ Readable s cs := by
  cases n with
  | integer n fits => exact ⟨_, _, rfl, readable_integer fits⟩
  | real x finite => exact readable_scientific finite

end Json

end PreparedSql
