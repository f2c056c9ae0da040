import PreparedSql.Proofs.BindingTexts
import PreparedSql.Proofs.SimpleCells

/-!
# Words in cells and bindings

A word is made of ASCII letters.  It is none of the texts that begin with a digit or a sign, so what
is left to tell apart are words: null, the truth values, and the numbers that are written as words.
Any other word is text.

* `Value.ofText_word`: what a word is read as.
* `word_kept`: a word that is not reserved is kept as it is, alone, in a row and in a binding.
* `not_wordsKept`: this does not hold of all words but null and the truth values.
-/

namespace PreparedSql

/-! ### Letters -/

theorem not_beginsNumber_of_isAlpha {c : Char} (h : c.isAlpha = true) : ¬ BeginsNumber c := by
  rintro (digit | rfl | rfl | rfl)
  · rw [isAlpha_of_isDigit digit] at h
    cases h
  · cases h
  · cases h
  · cases h

theorem isBlank_eq_false_of_isAlpha {c : Char} (h : c.isAlpha = true) : isBlank c = false := by
  have range := isAlpha_iff.1 h
  simp only [isBlank, blankRanges, List.any_cons, List.any_nil, Bool.or_false, Bool.or_eq_false_iff,
    Bool.and_eq_false_iff, decide_eq_false_iff_not]
  omega

/-- One or more ASCII letters and nothing else. -/
structure IsWord (w : String) : Prop where
  ne_nil  : w.toList ≠ []
  letters : ∀ c ∈ w.toList, c.isAlpha = true

instance : DecidablePred IsWord := fun w =>
  decidable_of_iff (w.toList ≠ [] ∧ w.toList.all Char.isAlpha = true)
    ⟨fun h => ⟨h.1, List.all_eq_true.1 h.2⟩, fun h => ⟨h.ne_nil, List.all_eq_true.2 h.letters⟩⟩

theorem IsWord.notMem {w : String} (h : IsWord w) {c : Char} (other : c.isAlpha = false) :
    c ∉ w.toList := fun hc => by
  rw [h.letters c hc] at other
  cases other

/-! ### Reserved words -/

/-- The words that are read as something else: null and the numbers in any letter case, and the
truth values. -/
def IsReserved (w : String) : Prop :=
  lowerCase w ∈ ["null", "inf", "infinity", "nan"] ∨ w ∈ ["true", "false"]

instance : DecidablePred IsReserved := fun w =>
  inferInstanceAs (Decidable (lowerCase w ∈ ["null", "inf", "infinity", "nan"] ∨
    w ∈ ["true", "false"]))

/-- **What a word is read as.** -/
theorem Value.ofText_word {w : String} (word : IsWord w) :
    Value.ofText w =
      if lowerCase w = "null" then .null
      else if w = "true" then .bool true
      else if w = "false" then .bool false
      else
        match numberOfWord? (lowerCase w) with
        | some x => .f64 x
        | none => .string w := by
  obtain ⟨c, cs, e⟩ := List.exists_cons_of_ne_nil word.ne_nil
  have first : c.isAlpha = true := word.letters c (e ▸ List.mem_cons_self)
  have begins := not_beginsNumber_of_isAlpha first
  have quote : c ≠ '\'' := by
    rintro rfl
    cases first
  obtain rfl : w = String.ofList (c :: cs) := by rw [← e, String.ofList_toList]
  have number : numberOrText (c :: cs) =
      match numberOfWord? (lowerCase (String.ofList (c :: cs))) with
      | some x => .f64 x
      | none => .string (String.ofList (c :: cs)) := by
    have int : readInt? (c :: cs) = none := readInt?_cons begins cs
    have real := Double.read?_cons begins cs
    cases found : numberOfWord? (lowerCase (String.ofList (c :: cs))) with
    | some x => exact numberOrText_of_read (by rw [int, Option.bind_none]) (real.trans found)
    | none => rw [numberOrText_of_none int (real.trans found), unquoted_cons quote]
  rw [ofText_eq, String.toList_ofList, number]

theorem Value.ofText_word_eq_string_iff {w : String} (word : IsWord w) :
    Value.ofText w = .string w ↔ ¬ IsReserved w := by
  rw [ofText_word word, numberOfWord?, IsReserved]
  simp only [List.mem_cons, List.not_mem_nil, or_false, not_or]
  split_ifs <;> grind

/-! ### Rows -/

/-- Blanks around a text that has none are left out. -/
theorem trim_blanks {front cs back : List Char} (hf : ∀ c ∈ front, isBlank c = true)
    (hb : ∀ c ∈ back, isBlank c = true) (kept : ∀ c ∈ cs, isBlank c = false) (ne : cs ≠ []) :
    trim (front ++ cs ++ back) = cs := by
  have start : trimStart (front ++ cs ++ back) = cs ++ back := by
    obtain ⟨c, cs, rfl⟩ := List.exists_cons_of_ne_nil ne
    rw [List.append_assoc, trimStart, List.dropWhile_append_of_pos hf, List.cons_append]
    exact trimStart_cons (kept c List.mem_cons_self) _
  have reversed : trimStart cs.reverse = cs.reverse := by
    obtain ⟨c, rest, e⟩ := List.exists_cons_of_ne_nil (List.reverse_ne_nil_iff.2 ne)
    rw [e]
    exact trimStart_cons (kept c (List.mem_reverse.1 (e ▸ List.mem_cons_self))) rest
  have blanks : ∀ c ∈ back.reverse, isBlank c = true := fun c hc => hb c (List.mem_reverse.1 hc)
  rw [trim, start, trimEnd, List.reverse_append, List.dropWhile_append_of_pos blanks, ← trimStart,
    reversed, List.reverse_reverse]

/-- A word is a literal. -/
theorem Cell.ofText_word {w : String} (word : IsWord w) :
    Cell.ofText w = .literal (.ofText w) := by
  obtain ⟨c, cs, e⟩ := List.exists_cons_of_ne_nil word.ne_nil
  have first : c.isAlpha = true := word.letters c (e ▸ List.mem_cons_self)
  have plain : ¬ (c = ':' ∨ c = '$' ∨ c = '[') := by
    rintro (rfl | rfl | rfl) <;> cases first
  obtain rfl : w = String.ofList (c :: cs) := by rw [← e, String.ofList_toList]
  exact Cell.ofText_cons plain cs

/-- In a row a word is a cell of its own, whatever the other cells are. -/
theorem cellsOfText_word {w : String} (word : IsWord w) {before after : List String}
    {front back : List Char} (closed : ∀ c ∈ before ++ after.dropLast, c.toList.count '\'' % 2 = 0)
    (blanks : ∀ c ∈ front ++ back, isBlank c = true) :
    cellsOfText (rowOf (before ++ String.ofList (front ++ w.toList ++ back) :: after)) =
      before.flatMap cellsOfText ++ .literal (.ofText w) :: after.flatMap cellsOfText := by
  obtain ⟨blankFront, blankBack⟩ := List.forall_mem_append.1 blanks
  have letters : ∀ c ∈ w.toList, isBlank c = false := fun c hc =>
    isBlank_eq_false_of_isAlpha (word.letters c hc)
  have absent {c : Char} (letter : c.isAlpha = false) (blank : isBlank c = false) :
      c ∉ front ++ w.toList ++ back := by
    simp only [List.mem_append, not_or]
    refine ⟨⟨fun hc => ?_, word.notMem letter⟩, fun hc => ?_⟩
    · exact absurd (blankFront c hc) (by simp [blank])
    · exact absurd (blankBack c hc) (by simp [blank])
  have whole : StandsWhole (String.ofList (front ++ w.toList ++ back)).toList := by
    rw [String.toList_ofList]
    exact .of_notMem (absent (by decide) (by decide)) (absent (by decide) (by decide))
  have cell := whole.cellsOfText_rowOf fun c hc => (quotesOpen_eq_false_iff _).2 (closed c hc)
  rw [cell, String.toList_ofList, trim_blanks blankFront blankBack letters word.ne_nil,
    String.ofList_toList, Cell.ofText_word word]

/-- **A word that is not reserved is kept as it is**: it is read as text, it is this text that its
cell of a row holds, whatever the other cells are and with blanks around it or not, and it is this
text that a binding gives to its slot, unless a later one gives it another value. -/
theorem word_kept {w : String} (word : IsWord w) (free : ¬ IsReserved w) :
    Value.ofText w = .string w ∧
    (∀ {before after : List String} {front back : List Char},
      (∀ c ∈ before ++ after.dropLast, c.toList.count '\'' % 2 = 0) →
      (∀ c ∈ front ++ back, isBlank c = true) →
        cellsOfText (rowOf (before ++ String.ofList (front ++ w.toList ++ back) :: after)) =
          before.flatMap cellsOfText ++ .literal (.string w) :: after.flatMap cellsOfText) ∧
    ∀ {before after : List String} {key : List Char} {b : Bindings},
      '=' ∉ key → slotOfKey key ≠ .positional 0 →
      (∀ t ∈ after, ∀ v, readBinding t ≠ .ok (slotOfKey key, v)) →
      Bindings.ofTexts (before ++ String.ofList (key ++ '=' :: w.toList) :: after) = .ok b →
        b.value? (slotOfKey key) = some (.string w) := by
  have read : Value.ofText w = .string w := (Value.ofText_word_eq_string_iff word).2 free
  refine ⟨read, ?_, ?_⟩
  · intro before after front back closed blanks
    rw [cellsOfText_word word closed blanks, read]
  · intro before after key b cut counted last accepted
    have binding := readBinding_key cut counted w
    rw [read] at binding
    exact Bindings.value?_ofTexts binding last accepted

/-- A name in a row with blanks, and for a slot. -/
theorem nulls_kept :
    IsWord "Nulls" ∧ ¬ IsReserved "Nulls" ∧ Value.ofText "Nulls" = .string "Nulls" ∧
      cellsOfText "null, Nulls" = cellsOfText "null" ++ [.literal (.string "Nulls")] ∧
      ∃ b, Bindings.ofTexts ["name=Nulls"] = .ok b ∧
        b.value? (.named "name") = some (.string "Nulls") := by
  have word : IsWord "Nulls" := by decide +kernel
  have free : ¬ IsReserved "Nulls" := by decide +kernel
  obtain ⟨read, row, binding⟩ := word_kept word free
  have cells := @row ["null"] [] [' '] [] (List.forall_mem_singleton.2 (by decide))
    (List.forall_mem_singleton.2 (by decide))
  have text : rowOf (["null"] ++ [String.ofList ([' '] ++ "Nulls".toList ++ [])]) =
      "null, Nulls" := by decide +kernel
  have slot : slotOfKey ['n', 'a', 'm', 'e'] = .named "name" := by decide +kernel
  have assignment : String.ofList (['n', 'a', 'm', 'e'] ++ '=' :: "Nulls".toList) =
      "name=Nulls" := by decide +kernel
  have named := @readBinding_key ['n', 'a', 'm', 'e'] (by decide) (by simp [slot]) "Nulls"
  have value := @binding [] [] ['n', 'a', 'm', 'e']
  rw [slot, assignment] at named
  rw [slot] at value
  rw [text] at cells
  have bound : ["name=Nulls"].mapM readBinding = .ok [(.named "name", .ofText "Nulls")] := by
    rw [mapM_cons_of_ok named]
    rfl
  have accepted := Bindings.ofTexts_of_names bound rfl
  exact ⟨word, free, read, cells, _, accepted, value (by decide) (by simp) (by simp) accepted⟩

/-- **Words are kept as they are**, all but null in any letter case, true and false.  It does not
hold (`not_wordsKept`). -/
def WordsKept : Prop :=
  ∀ w : String, IsWord w → lowerCase w ≠ "null" → w ≠ "true" → w ≠ "false" →
    Value.ofText w = .string w

/-- The word is read as the floating-point number that is none. -/
theorem not_wordsKept : ¬ WordsKept := by
  intro h
  have word : IsWord "Nan" := by decide +kernel
  have kept := h "Nan" word (by decide +kernel) (by decide) (by decide)
  have reserved : IsReserved "Nan" := by decide +kernel
  exact (Value.ofText_word_eq_string_iff word).1 kept reserved

end PreparedSql
