import PreparedSql.Dialect.Literal
import PreparedSql.Proofs.LiteralText
import PreparedSql.Proofs.NaturalDoubles

/-!
# Integers from text to SQL

A signed integer of 64 bits is kept as it is.  Any other one is rounded to a floating-point number,
and what stands in SQL is the shortest integer of that number; or a word, if the number is infinite.

* `denotes_shortest`: the literal of a large double.
* `integer_kept_iff`: which integers are kept.
* `not_integersKept`: not all are.
-/

namespace PreparedSql

/-- The integer with a sign and a magnitude. -/
def withSign (negative : Bool) (n : Nat) : Int := if negative then -(n : Int) else n

theorem withSign_inj {negative : Bool} {a b : Nat} :
    withSign negative a = withSign negative b ↔ a = b := by
  cases negative <;> simp [withSign]

/-- A literal that is, in quotes or not, the decimal text of an integer. -/
def Denotes (literal : String) (n : Int) : Prop := readInt? (unquoted literal.toList) = some n

instance (literal : String) (n : Int) : Decidable (Denotes literal n) :=
  inferInstanceAs (Decidable (readInt? (unquoted literal.toList) = some n))

theorem unquoted_signedText (negative : Bool) {ds : List Char} (h : isNumeral ds = true) :
    unquoted (signedText negative ds) = signedText negative ds := by
  cases negative with
  | true => exact unquoted_cons (by decide) ds
  | false =>
      obtain ⟨digits, ne⟩ := isNumeral_iff.1 h
      obtain ⟨d, ds, rfl⟩ := List.exists_cons_of_ne_nil ne
      refine unquoted_cons ?_ ds
      rintro rfl
      exact absurd (digits _ List.mem_cons_self) (by decide)

theorem denotes_signedText (negative : Bool) {ds : List Char} (h : isNumeral ds = true)
    (n : Int) :
    Denotes (String.ofList (signedText negative ds)) n ↔
      withSign negative (digitsValue ds) = n := by
  rw [Denotes, String.toList_ofList, unquoted_signedText negative h, readInt?_signedText negative h,
    Option.some_inj]
  rfl

/-- A decimal without places is written as a numeral. -/
theorem Decimal.plainWith_natural {x : Decimal} {n : Nat} (whole : 0 ≤ x.exponent)
    (value : x.value = n) :
    isNumeral (x.plainWith []) = true ∧ digitsValue (x.plainWith []) = n := by
  obtain ⟨d, e⟩ := x
  obtain ⟨k, rfl⟩ := Int.eq_ofNat_of_zero_le whole
  have natural : d * 10 ^ k = n := by
    rw [Decimal.value, zpow_natCast] at value
    exact_mod_cast value
  have digits := allDigits_decimalDigits d
  rw [plainWith, if_pos whole, List.append_nil]
  split
  · next zero =>
      obtain rfl : d = 0 := zero
      exact ⟨isNumeral_decimalDigits 0, by rw [digitsValue_decimalDigits, ← natural, Nat.zero_mul]⟩
  · have padded : AllDigits (decimalDigits d ++ List.replicate k '0') :=
      List.forall_mem_append.2 ⟨digits, allDigits_zeros k⟩
    refine ⟨isNumeral_iff.2 ⟨padded, ?_⟩, ?_⟩
    · exact List.append_ne_nil_of_left_ne_nil (decimalDigits_ne_nil d) _
    · rw [digitsValue_append, digitsValue_decimalDigits, digitsValue_zeros, Nat.add_zero,
        List.length_replicate]
      exact natural

/-- The signed integers of 64 bits. -/
def FitsInt64 (n : Int) : Prop := -2 ^ 63 ≤ n ∧ n < 2 ^ 63

section

variable {negative : Bool} {ds : List Char} (numeral : isNumeral ds = true)

include numeral

theorem ofText_of_fits (fits : FitsInt64 (withSign negative (digitsValue ds))) :
    ∃ n : FixedInt .i64, n.val = withSign negative (digitsValue ds) ∧
      Value.ofText (String.ofList (signedText negative ds)) = .int .i64 n := by
  let n : FixedInt .i64 :=
    ⟨withSign negative (digitsValue ds), fits.1, Int.le_sub_one_of_lt fits.2⟩
  refine ⟨n, rfl, ?_⟩
  rw [Value.ofText_of_isNumeral negative numeral]
  exact numberOrText_of_fits (readInt?_signedText negative numeral) (FixedInt.ofInt?_val n)

/-- An integer that is too large is rounded. -/
theorem ofText_of_not_fits (large : ¬ FitsInt64 (withSign negative (digitsValue ds))) :
    Value.ofText (String.ofList (signedText negative ds)) =
      .f64 (Double.ofRatio negative (digitsValue ds) 1) := by
  have none : FixedInt.ofInt? .i64 (withSign negative (digitsValue ds)) = none :=
    dif_neg fun h => large ⟨h.1, Int.lt_of_le_sub_one h.2⟩
  rw [Value.ofText_of_isNumeral negative numeral, ← Double.ofDecimal_natural]
  refine numberOrText_of_read ?_ (Double.read?_signedText negative numeral)
  rw [readInt?_signedText negative numeral]
  exact none

end

theorem denotes_int (d : Dialect) (n : FixedInt .i64) :
    Denotes (d.literal (.int .i64 n)) n.val := by
  refine (denotes_signedText _ (isNumeral_decimalDigits _) _).2 ?_
  rw [digitsValue_decimalDigits, withSign]
  split
  · next below =>
      have := of_decide_eq_true below
      omega
  · next above =>
      have := of_decide_eq_false (Bool.eq_false_iff.2 above)
      omega

/-- The literal of an infinity is no integer. -/
theorem not_denotes_infinity (d : Dialect) (negative : Bool) (n : Int) :
    ¬ Denotes (d.literal (.f64 (.infinity negative))) n := by
  have infinite : (Double.infinity negative).number = .infinite negative := by
    cases negative <;> decide
  have text : d.literal (.f64 (.infinity negative)) =
      String.ofList (floatLiteral (.infinite negative) (Double.infinity negative).plain) := by
    rw [← infinite]
    rfl
  have word : readInt? "Infinity".toList = none ∧ readInt? "-Infinity".toList = none := by decide
  rw [Denotes, text, String.toList_ofList]
  cases negative with
  | true =>
      rw [floatLiteral, unquoted_singleQuoted, word.2]
      exact (Option.some_ne_none n).symm
  | false =>
      rw [floatLiteral, unquoted_singleQuoted, word.1]
      exact (Option.some_ne_none n).symm

/-- **The literal of a large double** is the shortest natural of the double, with its sign. -/
theorem denotes_shortest {n : Nat} (large : 2 ^ 63 ≤ n) (finite : (n : ℚ) < Double.overflow) :
    ∃ s, SameDouble s n ∧ IsShortest s ∧ (IsShortest n → n = s) ∧
      ∀ (d : Dialect) (negative : Bool) (a : Int),
        Denotes (d.literal (.f64 (.ofRatio negative n 1))) a ↔ withSign negative s = a := by
  obtain ⟨m, q, s, number, whole, value, same, shortest, only⟩ := exists_isShortest large finite
  obtain ⟨numeral, digits⟩ := Decimal.plainWith_natural whole value
  refine ⟨s, same, shortest, only n rfl, fun d negative a => ?_⟩
  have text : d.literal (.f64 (.ofRatio negative n 1)) = String.ofList (signedText negative
      ((BinaryFormat.binary64.shortest .up m q).plainWith [])) := by
    show String.ofList (floatLiteral (Double.number _) (Double.plain _)) = _
    rw [Double.plain, number negative]
    rfl
  rw [text, denotes_signedText negative numeral, digits]

/-- **Which integers are kept** from the command line to SQL: those of 64 bits, and of the others
those that are the shortest integer of their double. -/
theorem integer_kept_iff (d : Dialect) (negative : Bool) {ds : List Char}
    (numeral : isNumeral ds = true) :
    Denotes (d.literal (.ofText (String.ofList (signedText negative ds))))
        (withSign negative (digitsValue ds)) ↔
      FitsInt64 (withSign negative (digitsValue ds)) ∨
        (digitsValue ds : ℚ) < Double.overflow ∧ IsShortest (digitsValue ds) := by
  by_cases fits : FitsInt64 (withSign negative (digitsValue ds))
  · obtain ⟨n, same, read⟩ := ofText_of_fits numeral fits
    rw [read, ← same]
    exact iff_of_true (denotes_int d n) (.inl (same ▸ fits))
  · have large : 2 ^ 63 ≤ digitsValue ds := by
      by_contra small
      refine fits ?_
      rw [FitsInt64, withSign]
      split <;> omega
    rw [ofText_of_not_fits numeral fits, or_iff_right fits]
    rcases lt_or_ge (digitsValue ds : ℚ) Double.overflow with finite | infinite
    · obtain ⟨s, -, shortest, only, denoted⟩ := denotes_shortest large finite
      rw [denoted, withSign_inj, and_iff_right finite]
      exact ⟨fun same => same ▸ shortest, fun h => (only h).symm⟩
    · have pos : 0 < digitsValue ds := by omega
      have quotient : Double.overflow ≤ (digitsValue ds : ℚ) / (1 : Nat) := by
        rwa [Nat.cast_one, div_one]
      rw [← Double.infinity_eq_ofRatio negative pos Nat.one_pos quotient]
      exact iff_of_false (not_denotes_infinity d negative _) fun h => absurd h.1 (not_lt.2 infinite)

/-- The negative of ten to the nineteenth, which is no signed integer of 64 bits, is kept. -/
theorem tenToTheNineteenth_kept :
    isNumeral "10000000000000000000".toList = true ∧
      Denotes (Dialect.mysql.literal (.ofText "-10000000000000000000")) (-10 ^ 19) := by
  have numeral : isNumeral "10000000000000000000".toList = true := by decide
  have value : digitsValue "10000000000000000000".toList = 1 * 10 ^ 19 := by decide
  have finite : ((1 * 10 ^ 19 : Nat) : ℚ) < Double.overflow := by
    have le : (10 : ℚ) ^ 19 ≤ 10 ^ 308 := pow_le_pow_right₀ (by norm_num) (by decide)
    rw [Nat.one_mul, Nat.cast_pow, Nat.cast_ofNat]
    exact le.trans_lt Double.ten_pow_lt_overflow
  have kept := (integer_kept_iff .mysql true numeral).2
    (.inr (value ▸ ⟨finite, isShortest_of_digits (by decide) (by decide) finite⟩))
  rw [value] at kept
  exact ⟨numeral, kept⟩

/-- **Integers are kept** from the command line to SQL, whatever their size.  It does not hold
(`not_integersKept`). -/
def IntegersKept : Prop :=
  ∀ (d : Dialect) (negative : Bool) (ds : List Char), isNumeral ds = true →
    Denotes (d.literal (.ofText (String.ofList (signedText negative ds))))
      (withSign negative (digitsValue ds))

/-- The greatest unsigned integer of 64 bits is written as another one. -/
theorem literal_greatest :
    Dialect.postgres.literal (.ofText "18446744073709551615") = "18446744073709552000" := by
  decide +kernel

theorem not_integersKept : ¬ IntegersKept := by
  intro h
  have kept := h .postgres false "18446744073709551615".toList (by decide)
  have text : String.ofList (signedText false "18446744073709551615".toList) =
      "18446744073709551615" := String.ofList_toList
  rw [text, literal_greatest] at kept
  exact absurd kept (by decide +kernel)

end PreparedSql
