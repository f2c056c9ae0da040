import Mathlib.Data.List.TakeWhile
import PreparedSql.CommandLine.Cell
import PreparedSql.Proofs.Literals
import PreparedSql.Proofs.Numerals
import PreparedSql.Proofs.WireRoundTrip

/-!
# Which literal a text is read as

A text is null or a truth value if it is one of their words, else a number if it can be read as one,
and else text (`numberOrText`).  The words are made of letters, and a number begins with a sign, a
digit or a point, or is one of three words; so it often shows at the first character what a text is
not.

* `Value.ofText_cons`: a text that does not begin with a letter is none of the words.
* `Value.ofText_intText`: the decimal text of an integer of 64 bits is read as that integer.
* `Value.ofText_singleQuoted`: a text in single quotes, with the quotes in it written twice, is read
  as that text, whatever it holds.
-/

namespace PreparedSql

/-- The literal of a text that is none of the words. -/
def numberOrText (cs : List Char) : Value :=
  match (readInt? cs).bind (FixedInt.ofInt? .i64) with
  | some n => .int .i64 n
  | none =>
    match Double.read? cs with
    | some x => .f64 x
    | none => .string (String.ofList (unquoted cs))

/-- Words come first, in this order; a text that is none of them is a number, or itself. -/
theorem Value.ofText_eq (s : String) :
    Value.ofText s =
      if lowerCase s = "null" then .null
      else if s = "true" then .bool true
      else if s = "false" then .bool false
      else numberOrText s.toList := rfl

/-! ### The first character -/

/-- Only a letter has a letter as its lower case. -/
theorem isAlpha_of_toLower {c : Char} (h : c.toLower.isAlpha = true) : c.isAlpha = true := by
  unfold Char.toLower at h
  split at h
  · next upper => exact Bool.or_eq_true_iff.2 (.inl (decide_eq_true upper))
  · exact h

theorem isAlpha_iff {c : Char} : c.isAlpha = true ↔
    65 ≤ c.toNat ∧ c.toNat ≤ 90 ∨ 97 ≤ c.toNat ∧ c.toNat ≤ 122 := by
  have parts : c.isAlpha = (decide ('A'.val ≤ c.val ∧ c.val ≤ 'Z'.val) ||
      decide ('a'.val ≤ c.val) && decide (c.val ≤ 'z'.val)) := rfl
  rw [parts, Bool.or_eq_true, Bool.and_eq_true, decide_eq_true_eq, decide_eq_true_eq,
    decide_eq_true_eq]
  exact Iff.rfl

/-- No character is both a letter and a digit. -/
theorem isAlpha_of_isDigit {c : Char} (h : c.isDigit = true) : c.isAlpha = false := by
  have parts : c.isDigit = (decide ('0'.val ≤ c.val) && decide (c.val ≤ '9'.val)) := rfl
  rw [parts, Bool.and_eq_true, decide_eq_true_eq, decide_eq_true_eq] at h
  have range : 48 ≤ c.toNat ∧ c.toNat ≤ 57 := h
  rw [Bool.eq_false_iff, Ne, isAlpha_iff]
  omega

/-- A text that begins with no letter is none of the words. -/
theorem ofList_cons_ne {c : Char} (h : c.isAlpha = false) (cs : List Char) {word : String}
    (letter : word.toList.head?.any Char.isAlpha = true) : String.ofList (c :: cs) ≠ word := by
  rintro rfl
  rw [String.toList_ofList, List.head?_cons, Option.any_some, h] at letter
  cases letter

theorem lowerCase_cons_ne {c : Char} (h : c.isAlpha = false) (cs : List Char) {word : String}
    (letter : word.toList.head?.any Char.isAlpha = true) :
    lowerCase (String.ofList (c :: cs)) ≠ word := by
  have lower : c.toLower.isAlpha = false :=
    Bool.eq_false_iff.2 fun e => Bool.eq_false_iff.1 h (isAlpha_of_toLower e)
  rw [lowerCase, String.toList_ofList]
  exact ofList_cons_ne lower _ letter

/-- A text that does not begin with a letter is none of the words. -/
theorem Value.ofText_cons {c : Char} (h : c.isAlpha = false) (cs : List Char) :
    Value.ofText (String.ofList (c :: cs)) = numberOrText (c :: cs) := by
  rw [ofText_eq, if_neg (lowerCase_cons_ne h cs (by decide)),
    if_neg (ofList_cons_ne h cs (by decide)), if_neg (ofList_cons_ne h cs (by decide)),
    String.toList_ofList]

/-- A sign, a digit or a point. -/
def BeginsNumber (c : Char) : Prop := c.isDigit = true ∨ c = '-' ∨ c = '+' ∨ c = '.'

instance : DecidablePred BeginsNumber := fun c =>
  inferInstanceAs (Decidable (c.isDigit = true ∨ c = '-' ∨ c = '+' ∨ c = '.'))

theorem splitSign_cons {c : Char} (minus : c ≠ '-') (plus : c ≠ '+') (cs : List Char) :
    splitSign (c :: cs) = (false, c :: cs) := by
  unfold splitSign
  split
  · next e => exact absurd (List.cons.inj e).1 minus
  · next e => exact absurd (List.cons.inj e).1 plus
  · rfl

/-- An integer begins with a sign or a digit. -/
theorem readInt?_cons {c : Char} (h : ¬ BeginsNumber c) (cs : List Char) :
    readInt? (c :: cs) = none := by
  simp only [BeginsNumber, not_or] at h
  simp [readInt?, splitSign_cons h.2.1 h.2.2.1, isNumeral, h.1]

/-- The floating-point number that a word stands for. -/
def numberOfWord? (s : String) : Option Double :=
  if s = "inf" ∨ s = "infinity" then some (.infinity false)
  else if s = "nan" then some .nan
  else none

/-- A floating-point number that begins like none is a word. -/
theorem Double.read?_cons {c : Char} (h : ¬ BeginsNumber c) (cs : List Char) :
    Double.read? (c :: cs) = numberOfWord? (lowerCase (String.ofList (c :: cs))) := by
  simp only [BeginsNumber, not_or] at h
  have decimal : readDecimal? (c :: cs) = none := by
    simp [readDecimal?, h.1, h.2.2.2]
  rw [Double.read?, splitSign_cons h.2.1 h.2.2.1]
  simp only [decimal, numberOfWord?, lowerCase, String.toList_ofList]
  split <;> simp_all

/-! ### Numbers -/

theorem isNumeral_iff {ds : List Char} : isNumeral ds = true ↔ AllDigits ds ∧ ds ≠ [] := by
  rw [isNumeral, Bool.and_eq_true, List.all_eq_true, Bool.not_eq_true', List.isEmpty_eq_false_iff,
    and_comm]
  rfl

/-- The sign that was written is the sign that is read. -/
theorem splitSign_signedText (negative : Bool) {ds : List Char} (h : AllDigits ds) :
    splitSign (signedText negative ds) = (negative, ds) := by
  cases negative with
  | true => rfl
  | false =>
      cases ds with
      | nil => rfl
      | cons d ds =>
          have digit : d.isDigit = true := h d List.mem_cons_self
          refine splitSign_cons ?_ ?_ ds <;> rintro rfl <;> cases digit

/-- Digits, with or without a minus sign in front, write an integer. -/
theorem readInt?_signedText (negative : Bool) {ds : List Char} (h : isNumeral ds = true) :
    readInt? (signedText negative ds) =
      some (if negative then -(digitsValue ds : Int) else digitsValue ds) := by
  rw [readInt?, splitSign_signedText negative (isNumeral_iff.1 h).1]
  exact if_pos h

/-- Digits without a point and an exponent are their own value. -/
theorem readDecimal?_of_isNumeral {ds : List Char} (h : isNumeral ds = true) :
    readDecimal? ds = some ⟨digitsValue ds, 0⟩ := by
  obtain ⟨digits, ne⟩ := isNumeral_iff.1 h
  have whole : ds.takeWhile Char.isDigit = ds := List.takeWhile_eq_self_iff.2 digits
  have rest : ds.dropWhile Char.isDigit = [] := List.dropWhile_eq_nil_iff.2 digits
  simp [readDecimal?, whole, rest, ne, readExponent?]

/-- A numeral is read as a number even where it is too large for an integer. -/
theorem Double.read?_signedText (negative : Bool) {ds : List Char} (h : isNumeral ds = true) :
    Double.read? (signedText negative ds) =
      some (.ofDecimal negative ⟨digitsValue ds, 0⟩) := by
  rw [Double.read?, splitSign_signedText negative (isNumeral_iff.1 h).1]
  simp only [readDecimal?_of_isNumeral h]

/-- An integer of 64 bits is read as one, although it could be read as a number. -/
theorem numberOrText_of_fits {cs : List Char} {m : Int} {n : FixedInt .i64}
    (read : readInt? cs = some m) (fits : FixedInt.ofInt? .i64 m = some n) :
    numberOrText cs = .int .i64 n := by
  rw [numberOrText, read, Option.bind_some, fits]

/-- A number is read as one where there is no such integer. -/
theorem numberOrText_of_read {cs : List Char} {x : Double}
    (large : (readInt? cs).bind (FixedInt.ofInt? .i64) = none) (read : Double.read? cs = some x) :
    numberOrText cs = .f64 x := by
  rw [numberOrText, large, read]

/-- What is no number is text. -/
theorem numberOrText_of_none {cs : List Char} (int : readInt? cs = none)
    (real : Double.read? cs = none) : numberOrText cs = .string (String.ofList (unquoted cs)) := by
  rw [numberOrText, int, Option.bind_none, real]

/-- A numeral is none of the words. -/
theorem Value.ofText_of_isNumeral (negative : Bool) {ds : List Char} (h : isNumeral ds = true) :
    Value.ofText (String.ofList (signedText negative ds)) =
      numberOrText (signedText negative ds) := by
  cases negative with
  | true => exact ofText_cons (by decide) ds
  | false =>
      obtain ⟨digits, ne⟩ := isNumeral_iff.1 h
      obtain ⟨d, ds, rfl⟩ := List.exists_cons_of_ne_nil ne
      exact ofText_cons (isAlpha_of_isDigit (digits d List.mem_cons_self)) ds

theorem isNumeral_decimalDigits (n : Nat) : isNumeral (decimalDigits n) = true :=
  isNumeral_iff.2 ⟨allDigits_decimalDigits n, decimalDigits_ne_nil n⟩

/-- An integer is read back from its text. -/
theorem readInt?_intText (n : Int) : readInt? (intText n) = some n := by
  rw [intText, readInt?_signedText _ (isNumeral_decimalDigits _), digitsValue_decimalDigits]
  refine congrArg some ?_
  split
  · next below =>
      have := of_decide_eq_true below
      omega
  · next above =>
      have := of_decide_eq_false (Bool.eq_false_iff.2 above)
      omega

/-- **An integer of 64 bits** is read from its decimal text. -/
theorem Value.ofText_intText (n : FixedInt .i64) :
    Value.ofText (String.ofList (intText n.val)) = .int .i64 n := by
  rw [intText, ofText_of_isNumeral _ (isNumeral_decimalDigits _)]
  exact numberOrText_of_fits (readInt?_intText n.val) (FixedInt.ofInt?_val n)

/-! ### Text in quotes -/

/-- Text that does not begin with a quote is taken as it is. -/
theorem unquoted_cons {c : Char} (h : c ≠ '\'') (cs : List Char) :
    unquoted (c :: cs) = c :: cs := by
  have outside : betweenQuotes? (c :: cs) = none := by
    unfold betweenQuotes?
    split
    · next e => exact absurd (List.cons.inj e).1 h
    · rfl
  rw [unquoted, outside]

theorem unquoted_singleQuoted (cs : List Char) : unquoted (singleQuoted cs) = cs := by
  have between : betweenQuotes? (singleQuoted cs) = some (doubled '\'' cs) := by
    simp [singleQuoted, betweenQuotes?]
  rw [unquoted, between]
  exact undoubled_doubled '\'' cs

/-- A text that begins with a quote is no number. -/
theorem Double.read?_quote (cs : List Char) : Double.read? ('\'' :: cs) = none := by
  have other {word : String} (letter : word.toList.head?.any Char.isAlpha = true) :
      lowerCase (String.ofList ('\'' :: cs)) ≠ word := lowerCase_cons_ne (by decide) cs letter
  rw [Double.read?_cons (by decide), numberOfWord?,
    if_neg (not_or.2 ⟨other (by decide), other (by decide)⟩), if_neg (other (by decide))]

/-- **A text in single quotes** is read as that text, whatever it holds. -/
theorem Value.ofText_singleQuoted (s : String) :
    Value.ofText (String.ofList (singleQuoted s.toList)) = .string s := by
  have int : readInt? (singleQuoted s.toList) = none :=
    readInt?_cons (by decide) _
  rw [singleQuoted, ofText_cons (by decide), ← singleQuoted,
    numberOrText_of_none int (Double.read?_quote _), unquoted_singleQuoted, String.ofList_toList]

end PreparedSql
