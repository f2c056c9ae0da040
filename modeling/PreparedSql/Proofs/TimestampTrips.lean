import PreparedSql.Proofs.TimestampText
import PreparedSql.Wire

/-!
# A timestamp's trip through its text

A timestamp is shown and sent as its canonical text, and loaded from such a text again.  On the way
the digits below the microsecond are lost and nothing else is (`Timestamp.toMicrosecond`), if leap
seconds stand after second 59 only: a year keeps its sign and its digits, and second 60 is read as
the leap second that was shown.

* `Timestamp.read?_eq`: the format without a fraction reads nothing that the first one does not.
* `Timestamp.text_eq_text_iff`: the text tells the time to the microsecond.
* `timestamp_comes_back`: what comes back from the first trip, and from any other.
-/

namespace PreparedSql

namespace Timestamp

/-! ### The two formats -/

/-- Where no fraction is read the text is at its end, and there the other format reads none. -/
theorem fields?_of_noFraction {cs : List Char} {t : CalendarTime}
    (h : fields? noFraction? cs = some t) : fields? fraction? cs = some t := by
  simp only [fields?, Option.bind_eq_bind, Option.bind_eq_some_iff] at h ⊢
  obtain ⟨year, hyear, cs₁, after₁, month, hmonth, cs₂, after₂, day, hday, hour, hhour,
    cs₃, after₃, minute, hminute, cs₄, after₄, second, hsecond, nano, hnano, whole⟩ := h
  obtain rfl : (0, second.2) = nano := Option.some.inj hnano
  have ended : second.2 = [] := by
    by_contra more
    simp [more] at whole
  refine ⟨year, hyear, cs₁, after₁, month, hmonth, cs₂, after₂, day, hday, hour, hhour,
    cs₃, after₃, minute, hminute, cs₄, after₄, second, hsecond, (0, []), ?_, ?_⟩
  · rw [ended]
    rfl
  · rw [ended] at whole
    exact whole

/-- **The second format adds nothing.** -/
theorem read?_eq (s : String) : read? s = readAs? fraction? s := by
  unfold read?
  cases first : readAs? fraction? s with
  | some t => exact Option.some_or
  | none =>
      rw [Option.none_or, Option.eq_none_iff_forall_ne_some]
      intro t second
      obtain ⟨fields, named, valid⟩ := Option.bind_eq_some_iff.1 second
      rw [readAs?, fields?_of_noFraction named, Option.bind_some, valid] at first
      cases first

/-! ### To the microsecond -/

/-- The time without the digits below the microsecond. -/
def toMicrosecond (t : Timestamp) : Timestamp where
  toCalendarTime := { t.toCalendarTime with nano := t.nano / 1000 * 1000 }
  valid := { t.valid with nano := Nat.lt_of_le_of_lt (Nat.div_mul_le_self ..) t.valid.nano }

variable {t u : Timestamp}

/-- **What is shown is the time to the microsecond**, where leap seconds stand as they should. -/
theorem shown_eq_toMicrosecond (aligned : t.LeapAligned) :
    (⟨t.shown, t.shown_valid⟩ : Timestamp) = t.toMicrosecond := by
  have second := t.valid.second
  have nano := t.valid.nano
  simp only [toMicrosecond, mk.injEq]
  unfold shown
  split
  · next leap =>
      have last := aligned (show 10 ^ 9 ≤ t.nano by omega)
      have same : 10 ^ 9 + t.nano % 10 ^ 9 / 1000 * 1000 = t.nano / 1000 * 1000 := by omega
      rw [same, ← last]
  · next usual =>
      have early : t.nano < 10 ^ 9 := by
        by_contra late
        have last := aligned (Nat.le_of_not_lt late)
        omega
      have carry : t.second + t.nano / 10 ^ 9 = t.second := by omega
      rw [carry, Nat.mod_eq_of_lt early]

theorem read?_text_eq_toMicrosecond (aligned : t.LeapAligned) :
    read? t.text = some t.toMicrosecond := by
  rw [read?_text, shown_eq_toMicrosecond aligned]

theorem text_toMicrosecond (aligned : t.LeapAligned) : t.toMicrosecond.text = t.text := by
  rw [← shown_eq_toMicrosecond aligned]
  exact congrArg String.ofList t.chars_shown

/-- **The text tells the time to the microsecond.** -/
theorem text_eq_text_iff (ht : t.LeapAligned) (hu : u.LeapAligned) :
    t.text = u.text ↔ t.toMicrosecond = u.toMicrosecond := by
  constructor
  · intro same
    have read := read?_text_eq_toMicrosecond ht
    rw [same, read?_text_eq_toMicrosecond hu] at read
    exact (Option.some.inj read).symm
  · intro same
    rw [← text_toMicrosecond ht, same, text_toMicrosecond hu]

end Timestamp

theorem Value.load_timestamp_text {t : Timestamp} (aligned : t.LeapAligned) :
    ColumnType.load (.string (Value.timestamp t).text) = .ok t.toMicrosecond := by
  show loadTimestamp (.string t.text) = _
  simp only [loadTimestamp, Timestamp.read?_text_eq_toMicrosecond aligned]
  rfl

/-- **A timestamp comes back from its text** without the digits below the microsecond, and from
every other trip as it is. The text is what is bound for it. -/
theorem timestamp_comes_back {t : Timestamp} (aligned : t.LeapAligned) :
    (Value.timestamp t).bind = .text (Value.timestamp t).text ∧
      ColumnType.load (.string (Value.timestamp t).text) = .ok t.toMicrosecond ∧
      ColumnType.load (.string (Value.timestamp t.toMicrosecond).text) = .ok t.toMicrosecond := by
  refine ⟨rfl, Value.load_timestamp_text aligned, ?_⟩
  show ColumnType.load (.string t.toMicrosecond.text) = _
  rw [Timestamp.text_toMicrosecond aligned]
  exact Value.load_timestamp_text aligned

/-- A leap second before the year 0. -/
def earlyLeapSecond : Timestamp := ⟨⟨-44, 3, 15, 23, 59, 59, 1999999999⟩, by decide⟩

theorem earlyLeapSecond_comes_back :
    earlyLeapSecond.LeapAligned ∧
      (Value.timestamp earlyLeapSecond).text = "-0044-03-15 23:59:60.999999" ∧
      earlyLeapSecond.toMicrosecond.nano = 1999999000 ∧
      (Value.timestamp earlyLeapSecond).bind = .text (Value.timestamp earlyLeapSecond).text ∧
      ColumnType.load (.string (Value.timestamp earlyLeapSecond).text) =
        .ok earlyLeapSecond.toMicrosecond ∧
      ColumnType.load (.string (Value.timestamp earlyLeapSecond.toMicrosecond).text) =
        .ok earlyLeapSecond.toMicrosecond :=
  ⟨fun _ => rfl, by decide +kernel, rfl, timestamp_comes_back fun _ => rfl⟩

end PreparedSql
