import PreparedSql.Proofs.Numerals

/-!
# A timestamp is read back

Each number in a timestamp's text has a fixed number of digits, or is a year with something other
than a digit after it, so the numbers are read off one by one (`Timestamp.fields?_chars`).  What is
read is the time shown: to the microsecond, and a leap second that does not stand after second 59
as the second after it (`Timestamp.shown`).

* `Timestamp.read?_text`: the text is read back as the time shown.
* `Timestamp.chars_shown`: the time shown has the same text.
-/

namespace PreparedSql

theorem isBlank_eq_false_of_isDigit {c : Char} (h : c.isDigit = true) : isBlank c = false := by
  have range : 48 ≤ c.toNat ∧ c.toNat ≤ 57 := by
    simpa [Char.isDigit, UInt32.le_iff_toNat_le] using h
  simp only [isBlank, blankRanges, List.any_cons, List.any_nil, Bool.or_false, Bool.or_eq_false_iff,
    Bool.and_eq_false_iff, decide_eq_false_iff_not]
  omega

theorem trimStart_cons {c : Char} (h : isBlank c = false) (cs : List Char) :
    trimStart (c :: cs) = c :: cs := by
  rw [trimStart, List.dropWhile_cons_of_neg (by simp [h])]

/-- There is no blank in front of a digit to skip. -/
theorem AllDigits.trimStart_append {ds : List Char} (h : AllDigits ds) (ne : ds ≠ [])
    (rest : List Char) : trimStart (ds ++ rest) = ds ++ rest := by
  obtain ⟨d, ds, rfl⟩ := List.exists_cons_of_ne_nil ne
  exact trimStart_cons (isBlank_eq_false_of_isDigit (h d List.mem_cons_self)) _

namespace Timestamp

/-! ### One number -/

/-- Digits are read as a number where no more are allowed or no more follow. -/
theorem number?_append {limit : Nat} {ds rest : List Char} (digits : AllDigits ds) (ne : ds ≠ [])
    (fits : ds.length ≤ limit) (stop : ds.length = limit ∨ NoDigitAhead rest) :
    number? limit (ds ++ rest) = some (digitsValue ds, rest) := by
  have run : ((ds ++ rest).take limit).takeWhile Char.isDigit = ds := by
    rw [List.take_append, List.take_of_length_le fits]
    refine digits.takeWhile_append ?_
    rcases stop with full | stop
    · rw [full, Nat.sub_self]
      exact noDigitAhead_nil
    · exact stop.take _
  rw [number?, digits.trimStart_append ne]
  simp only [run, List.isEmpty_eq_false_iff.2 ne, List.drop_left, Bool.false_eq_true, if_false]

/-- A blank before a number is skipped. -/
theorem number?_space (limit : Nat) (cs : List Char) :
    number? limit (' ' :: cs) = number? limit cs := rfl

/-- A field of its full width is read to its end. -/
theorem number?_padded {width n : Nat} (hw : 0 < width) (h : n < 10 ^ width) (rest : List Char) :
    number? width (padded width n ++ rest) = some (n, rest) := by
  have length := length_padded hw h
  rw [number?_append (allDigits_padded width n) (padded_ne_nil width n) (Nat.le_of_eq length)
    (.inl length), digitsValue_padded]

/-! ### The year -/

/-- A year of four digits begins with none of the signs. -/
theorem year?_of_digits {ds rest : List Char} (digits : AllDigits ds) (length : ds.length = 4) :
    year? (ds ++ rest) = some ((digitsValue ds : Int), rest) := by
  have ne : ds ≠ [] := List.ne_nil_of_length_pos (by omega)
  have read : number? 4 (ds ++ rest) = _ :=
    number?_append digits ne (Nat.le_of_eq length) (.inl length)
  obtain ⟨d, others, rfl⟩ := List.exists_cons_of_ne_nil ne
  have digit : d.isDigit = true := digits d List.mem_cons_self
  rw [year?, digits.trimStart_append ne]
  split
  · next e => exact absurd digit (by rw [(List.cons.inj e).1]; decide)
  · next e => exact absurd digit (by rw [(List.cons.inj e).1]; decide)
  · rw [read, Option.map_some]

/-- A year with a sign goes on to the first character that is not a digit. -/
theorem year?_of_sign {ds rest : List Char} (negative : Bool) (digits : AllDigits ds) (ne : ds ≠ [])
    (stop : NoDigitAhead rest) :
    year? ((if negative then '-' else '+') :: (ds ++ rest)) =
      some ((if negative then -1 else 1) * (digitsValue ds : Int), rest) := by
  have long : ds.length ≤ (ds ++ rest).length := by simp
  have read := number?_append digits ne long (.inr stop)
  obtain ⟨d, others, rfl⟩ := List.exists_cons_of_ne_nil ne
  have digit : d.isDigit = true := digits d List.mem_cons_self
  rw [List.cons_append] at read
  cases negative with
  | true =>
      rw [year?, if_pos rfl, trimStart_cons (by decide)]
      simp only [List.cons_append, List.head?_cons, Option.map_some, digit, Option.getD_some, read,
        if_true]
  | false =>
      rw [year?, if_neg (by decide), trimStart_cons (by decide)]
      simp only [List.cons_append, List.head?_cons, Option.map_some, digit, Option.getD_some, read,
        if_true, Bool.false_eq_true, if_false]

/-- A year of four digits has no sign, and any other year has one. -/
theorem year?_yearText (year : Int) {rest : List Char} (stop : NoDigitAhead rest) :
    year? (yearText year ++ rest) = some (year, rest) := by
  have value : ∀ n : Nat, digitsValue (padded 4 n) = n := digitsValue_padded 4
  rw [yearText]
  split
  · next common =>
      have length : (padded 4 year.toNat).length = 4 := length_padded (by decide) (by omega)
      rw [year?_of_digits (allDigits_padded 4 _) length, value, Int.toNat_of_nonneg common.1]
  · have read := year?_of_sign (decide (year < 0)) (allDigits_padded 4 year.natAbs)
      (padded_ne_nil 4 _) stop
    simp only [decide_eq_true_eq] at read
    rw [List.cons_append, read, value]
    congr 2
    split <;> omega

/-! ### The other fields -/

/-- Six digits behind the point are microseconds. -/
theorem fraction?_padded {micro : Nat} (h : micro < 10 ^ 6) :
    fraction? ('.' :: padded 6 micro) = some (micro * 1000, []) := by
  have length : (padded 6 micro).length = 6 := length_padded (by decide) h
  have take : (padded 6 micro).take 6 = padded 6 micro := List.take_of_length_le (by omega)
  have drop : (padded 6 micro).drop 6 = [] := List.drop_of_length_le (by omega)
  simp only [fraction?, take, drop, length, (allDigits_padded 6 micro).all, digitsValue_padded,
    true_and, if_true]

/-- No month is too long for a field of two digits. -/
theorem daysInMonth_le (year : Int) (month : Nat) : daysInMonth year month ≤ 31 := by
  unfold daysInMonth
  split
  · split <;> decide
  all_goals decide

/-- The time that the canonical text shows. -/
def shown (t : Timestamp) : CalendarTime :=
  if t.second + t.nano / 10 ^ 9 = 60 then
    { t.toCalendarTime with second := 59, nano := 10 ^ 9 + t.nano % 10 ^ 9 / 1000 * 1000 }
  else
    { t.toCalendarTime with
      second := t.second + t.nano / 10 ^ 9, nano := t.nano % 10 ^ 9 / 1000 * 1000 }

/-- **The fields are read one after the other**, each up to the character between them. -/
theorem fields?_chars (t : Timestamp) : fields? fraction? t.chars = some t.shown := by
  have valid := t.valid
  have month : t.month < 10 ^ 2 := Nat.lt_of_le_of_lt valid.month.2 (by decide)
  have day : t.day < 10 ^ 2 :=
    Nat.lt_of_le_of_lt (Nat.le_trans valid.day.2 (daysInMonth_le _ _)) (by decide)
  have hour : t.hour < 10 ^ 2 := Nat.lt_trans valid.hour (by decide)
  have minute : t.minute < 10 ^ 2 := Nat.lt_trans valid.minute (by decide)
  have second : t.second + t.nano / 10 ^ 9 < 10 ^ 2 := by
    have := valid.second
    have := valid.nano
    omega
  have micro : t.nano % 10 ^ 9 / 1000 < 10 ^ 6 := by omega
  have two {n : Nat} (h : n < 10 ^ 2) (rest : List Char) :
      number? 2 (padded 2 n ++ rest) = some (n, rest) := number?_padded (by decide) h rest
  simp only [chars, List.append_assoc, List.cons_append, fields?,
    year?_yearText t.year (noDigitAhead_cons (c := '-') (by decide) _), Option.bind_eq_bind,
    Option.bind_some, fields?.after?, if_true, two month, two day, number?_space, two hour,
    two minute, two second, fraction?_padded micro, List.isEmpty_nil, shown]
  rfl

theorem shown_valid (t : Timestamp) : t.shown.Valid := by
  have valid := t.valid
  have second := valid.second
  have nano := valid.nano
  unfold shown
  split
  · exact { valid with second := by dsimp only; omega, nano := by dsimp only; omega }
  · exact { valid with second := by dsimp only; omega, nano := by dsimp only; omega }

/-- **A timestamp's text is read back as the time it shows.** -/
theorem read?_text (t : Timestamp) : read? t.text = some ⟨t.shown, t.shown_valid⟩ := by
  rw [read?, readAs?, text, String.toList_ofList, fields?_chars, Option.bind_some, ofFields?,
    dif_pos t.shown_valid, Option.some_or]

/-- The time shown has the same text. -/
theorem chars_shown (t : Timestamp) : chars ⟨t.shown, t.shown_valid⟩ = t.chars := by
  have second := t.valid.second
  have nano := t.valid.nano
  have same : t.shown.second + t.shown.nano / 10 ^ 9 = t.second + t.nano / 10 ^ 9 ∧
      t.shown.nano % 10 ^ 9 / 1000 = t.nano % 10 ^ 9 / 1000 := by
    unfold shown
    split <;> dsimp only <;> omega
  have fields : t.shown.year = t.year ∧ t.shown.month = t.month ∧ t.shown.day = t.day ∧
      t.shown.hour = t.hour ∧ t.shown.minute = t.minute := by
    unfold shown
    split <;> exact ⟨rfl, rfl, rfl, rfl, rfl⟩
  obtain ⟨year, month, day, hour, minute⟩ := fields
  simp only [chars, same.1, same.2, year, month, day, hour, minute]

end Timestamp

end PreparedSql
