import Mathlib.Data.List.Basic
import PreparedSql.Proofs.SimpleCells

/-!
# Arrays of strings as text

An array is its elements in brackets, with semicolons between them.  It is cut at every semicolon,
in quotes or not; so an element that holds one is cut too, and its quotes with it.

* `arrayValues_joinWith`: the elements are read one by one.
* `array_read_back_iff`: an array of strings in quotes is read back where no string holds a
  semicolon, and as an array of more values where one does; in a row it stands whole all the same.
* `not_arraysReadBack`: so not all arrays of strings are read back.
-/

namespace PreparedSql

/-! ### Cutting -/

theorem splitAtEach_eq_splitOn (c : Char) (cs : List Char) : splitAtEach c cs = cs.splitOn c := by
  induction cs with
  | nil => rfl
  | cons x cs ih =>
      obtain ⟨part, parts, e⟩ := List.exists_cons_of_ne_nil (List.splitOn_ne_nil c cs)
      rw [splitAtEach, List.splitOn_cons_eq_if_modifyHead, ih, e]
      simp only [beq_iff_eq, List.modifyHead_cons]

/-- The parts of a text that are not empty. -/
def fullParts (c : Char) (cs : List Char) : List (List Char) :=
  (splitAtEach c cs).filter (!·.isEmpty)

/-- A separator cuts the text, and what stands on its two sides is cut by itself. -/
theorem fullParts_append_cons (c : Char) (cs ds : List Char) :
    fullParts c (cs ++ c :: ds) = fullParts c cs ++ fullParts c ds := by
  simp only [fullParts, splitAtEach_eq_splitOn, List.splitOn_append_cons_self, List.filter_append]

theorem fullParts_joinWith {c : Char} {texts : List (List Char)} (ne : texts ≠ []) :
    fullParts c (joinWith [c] texts) = texts.flatMap (fullParts c) := by
  induction texts with
  | nil => exact absurd rfl ne
  | cons cs texts ih =>
      cases texts with
      | nil => simp [joinWith]
      | cons next texts =>
          have joined : joinWith [c] (cs :: next :: texts) =
              cs ++ c :: joinWith [c] (next :: texts) := by simp [joinWith]
          rw [joined, fullParts_append_cons, ih (List.cons_ne_nil _ _)]
          rfl

/-- What has no separator in it is one part. -/
theorem fullParts_of_notMem {c : Char} {cs : List Char} (h : c ∉ cs) (ne : cs ≠ []) :
    fullParts c cs = [cs] := by
  rw [fullParts, splitAtEach_eq_splitOn, List.splitOn_eq_singleton h]
  simp [ne]

/-- A text has a part if it is not made of separators alone. -/
theorem fullParts_ne_nil {c x : Char} {cs : List Char} (h : x ∈ cs) (other : x ≠ c) :
    fullParts c cs ≠ [] := by
  induction cs with
  | nil => cases h
  | cons y cs ih =>
      by_cases separator : y = c
      · subst separator
        have later : x ∈ cs := (List.mem_cons.1 h).resolve_left other
        have cut : fullParts y ([] ++ y :: cs) = fullParts y [] ++ fullParts y cs :=
          fullParts_append_cons y [] cs
        rw [List.nil_append] at cut
        rw [cut]
        exact List.append_ne_nil_of_right_ne_nil _ (ih later)
      · obtain ⟨part, parts, e⟩ := List.exists_cons_of_ne_nil (splitAtEach_ne_nil c cs)
        simp [fullParts, splitAtEach, separator, e]

/-! ### The elements -/

/-- An array of strings, each in single quotes. -/
def arrayChars (ss : List String) : List Char :=
  '[' :: (joinWith [';'] (ss.map fun s => singleQuoted s.toList) ++ [']'])

def arrayText (ss : List String) : String := String.ofList (arrayChars ss)

theorem arrayValues_eq (inner : List Char) :
    arrayValues inner = (fullParts ';' inner).map fun cs => .ofText (String.ofList (trim cs)) := rfl

/-- **The elements of an array are read one by one.** -/
theorem arrayValues_joinWith {texts : List (List Char)} (ne : texts ≠ []) :
    arrayValues (joinWith [';'] texts) = texts.flatMap arrayValues := by
  rw [arrayValues_eq, fullParts_joinWith ne, List.map_flatMap]
  rfl

/-- What stands between brackets is an array, whatever it is. -/
theorem Cell.ofText_brackets (inner : List Char) :
    Cell.ofText (String.ofList ('[' :: (inner ++ [']']))) = .array (arrayValues inner) := by
  have array : betweenBrackets? ('[' :: (inner ++ [']'])) = some inner := by
    simp [betweenBrackets?]
  rw [Cell.ofText, String.toList_ofList]
  split
  · next e => exact absurd (List.cons.inj e).1 (by decide)
  · rw [array]
    rfl

/-- **An array is read element by element**, as each element would be read alone. -/
theorem Cell.ofText_arrayText {ss : List String} (ne : ss ≠ []) :
    Cell.ofText (arrayText ss) =
      .array (ss.flatMap fun s => arrayValues (singleQuoted s.toList)) := by
  rw [arrayText, arrayChars, Cell.ofText_brackets, arrayValues_joinWith (by simpa using ne),
    List.flatMap_map]

/-- Writing a character twice makes no other. -/
theorem mem_doubled {c q : Char} {cs : List Char} : c ∈ doubled q cs ↔ c ∈ cs := by
  rw [doubled, replaceAll, List.mem_flatMap]
  constructor
  · rintro ⟨x, hx, h⟩
    split at h
    · next e => simp_all
    · simp_all
  · intro h
    refine ⟨c, h, ?_⟩
    split <;> simp_all

/-- A string without a semicolon is read as one value, itself. -/
theorem arrayValues_of_notMem {s : String} (h : ';' ∉ s.toList) :
    arrayValues (singleQuoted s.toList) = [.string s] := by
  have whole : ';' ∉ singleQuoted s.toList := by
    simpa [singleQuoted, mem_doubled] using h
  rw [arrayValues_eq, fullParts_of_notMem whole (List.cons_ne_nil _ _), List.map_singleton,
    trim_singleQuoted, Value.ofText_singleQuoted]

/-- A string with a semicolon is cut, and there is a quote on either side. -/
theorem singleQuoted_append_cons (cs ds : List Char) :
    singleQuoted (cs ++ ';' :: ds) =
      ('\'' :: doubled '\'' cs) ++ ';' :: (doubled '\'' ds ++ ['\'']) := by
  simp [singleQuoted, doubled, replaceAll]

/-- A string is read as at least one value. -/
theorem one_le_length_arrayValues (s : String) :
    1 ≤ (arrayValues (singleQuoted s.toList)).length := by
  have part : fullParts ';' (singleQuoted s.toList) ≠ [] :=
    fullParts_ne_nil (x := '\'') List.mem_cons_self (by decide)
  rw [arrayValues_eq, List.length_map]
  exact List.length_pos_of_ne_nil part

/-- A string that holds a semicolon is read as more values. -/
theorem two_le_length_arrayValues {s : String} (h : ';' ∈ s.toList) :
    2 ≤ (arrayValues (singleQuoted s.toList)).length := by
  obtain ⟨front, back, e⟩ := List.append_of_mem h
  have before : fullParts ';' ('\'' :: doubled '\'' front) ≠ [] :=
    fullParts_ne_nil (x := '\'') List.mem_cons_self (by decide)
  have behind : fullParts ';' (doubled '\'' back ++ ['\'']) ≠ [] :=
    fullParts_ne_nil (x := '\'') (List.mem_append_right _ List.mem_cons_self) (by decide)
  have beforeOne := List.length_pos_of_ne_nil before
  have behindOne := List.length_pos_of_ne_nil behind
  rw [arrayValues_eq, List.length_map, e, singleQuoted_append_cons, fullParts_append_cons,
    List.length_append]
  omega

theorem length_le_length_flatMap {α β : Type} {f : α → List β} {xs : List α}
    (one : ∀ x, 1 ≤ (f x).length) : xs.length ≤ (xs.flatMap f).length := by
  induction xs with
  | nil => exact Nat.le_refl 0
  | cons x xs ih =>
      have first := one x
      rw [List.flatMap_cons, List.length_append, List.length_cons]
      omega

/-- There are more values than strings if one of the strings is read as more than one. -/
theorem length_lt_length_flatMap {α β : Type} {f : α → List β} {xs : List α}
    (one : ∀ x, 1 ≤ (f x).length) (two : ∃ x ∈ xs, 2 ≤ (f x).length) :
    xs.length < (xs.flatMap f).length := by
  obtain ⟨x, hx, more⟩ := two
  obtain ⟨front, back, rfl⟩ := List.append_of_mem hx
  have before : front.length ≤ (front.flatMap f).length := length_le_length_flatMap one
  have behind : back.length ≤ (back.flatMap f).length := length_le_length_flatMap one
  rw [List.flatMap_append, List.flatMap_cons, List.length_append, List.length_append,
    List.length_append, List.length_cons]
  omega

/-! ### Arrays -/

/-- A text that closes its quotes lets the next one begin outside of quotes. -/
theorem StandsWhole.append {cs ds : List Char} (hc : StandsWhole cs) (hd : StandsWhole ds) :
    StandsWhole (cs ++ ds) where
  commas := hc.commas.append (by rw [hc.closed]; exact hd.commas)
  closed := by rw [quotesOpen_append, hc.closed, hd.closed]

theorem StandsWhole.joinWith {separator : List Char} (hs : StandsWhole separator)
    {texts : List (List Char)} (h : ∀ cs ∈ texts, StandsWhole cs) :
    StandsWhole (joinWith separator texts) := by
  induction texts with
  | nil => exact ⟨trivial, rfl⟩
  | cons cs texts ih =>
      obtain ⟨first, others⟩ := List.forall_mem_cons.1 h
      cases texts with
      | nil => exact first
      | cons next texts => exact (first.append hs).append (ih others)

/-- A comma in a string of an array does not cut the row. -/
theorem standsWhole_arrayText (ss : List String) : StandsWhole (arrayText ss).toList := by
  have bracket {c : Char} (comma : c ≠ ',') (quote : c ≠ '\'') : StandsWhole [c] :=
    .of_notMem (by simpa using Ne.symm comma) (by simpa using Ne.symm quote)
  have strings : ∀ cs ∈ ss.map fun s => singleQuoted s.toList, StandsWhole cs :=
    List.forall_mem_map.2 fun s _ => .singleQuoted s.toList
  have inner := StandsWhole.joinWith (bracket (c := ';') (by decide) (by decide)) strings
  have closed := inner.append (bracket (c := ']') (by decide) (by decide))
  rw [arrayText, String.toList_ofList]
  exact (bracket (c := '[') (by decide) (by decide)).append closed

/-- **An array of strings is read back** exactly where no string holds a semicolon.  It is read as
an array in any case, but of more values where one does.  In a row it is a cell of its own, whatever
the strings hold. -/
theorem array_read_back_iff {ss : List String} (ne : ss ≠ []) :
    (Cell.ofText (arrayText ss) = .array (ss.map .string) ↔ ∀ s ∈ ss, ';' ∉ s.toList) ∧
    (∃ vs, Cell.ofText (arrayText ss) = .array vs ∧
      ((∃ s ∈ ss, ';' ∈ s.toList) → ss.length < vs.length)) ∧
    ∀ before after : List String,
      (∀ c ∈ before ++ after.dropLast, c.toList.count '\'' % 2 = 0) →
        splitRow (rowOf (before ++ arrayText ss :: after)) =
          before.flatMap splitRow ++ arrayText ss :: after.flatMap splitRow := by
  have more : (∃ s ∈ ss, ';' ∈ s.toList) →
      ss.length < (ss.flatMap fun s => arrayValues (singleQuoted s.toList)).length := by
    rintro ⟨s, hs, semicolon⟩
    exact length_lt_length_flatMap one_le_length_arrayValues
      ⟨s, hs, two_le_length_arrayValues semicolon⟩
  refine ⟨⟨fun h => ?_, fun h => ?_⟩, ⟨_, Cell.ofText_arrayText ne, more⟩, fun before after h => ?_⟩
  · by_contra cut
    push Not at cut
    rw [Cell.ofText_arrayText ne] at h
    have values := more cut
    rw [Cell.array.inj h, List.length_map] at values
    exact absurd values (Nat.lt_irrefl _)
  · have single : ∀ s ∈ ss, arrayValues (singleQuoted s.toList) = [.string s] := fun s hs =>
      arrayValues_of_notMem (h s hs)
    rw [Cell.ofText_arrayText ne, List.flatMap_congr single, List.map_eq_flatMap]
  · exact (standsWhole_arrayText ss).splitRow_rowOf fun c hc =>
      (quotesOpen_eq_false_iff _).2 (h c hc)

/-- Strings with a comma, brackets and a quote. -/
def bracketedNames : List String := ["[Smith, J]", "'"]

theorem bracketedNames_read_back :
    bracketedNames ≠ [] ∧ arrayText bracketedNames = "['[Smith, J]';'''']" ∧
      Cell.ofText "['[Smith, J]';'''']" = .array [.string "[Smith, J]", .string "'"] ∧
      splitRow "1,['[Smith, J]';'''']" = splitRow "1" ++ ["['[Smith, J]';'''']"] := by
  have ne : bracketedNames ≠ [] := List.cons_ne_nil _ _
  have text : arrayText bracketedNames = "['[Smith, J]';'''']" := by decide +kernel
  have row : rowOf (["1"] ++ arrayText bracketedNames :: []) = "1,['[Smith, J]';'''']" := by
    decide +kernel
  obtain ⟨⟨-, read⟩, -, split⟩ := array_read_back_iff ne
  have cell := read (by decide)
  have cells := split ["1"] [] (by decide)
  rw [row] at cells
  rw [text] at cell cells
  exact ⟨ne, text, cell, cells⟩

/-- **Arrays of strings are read back**, whatever the strings hold, and each is one cell of its row.
It does not hold (`not_arraysReadBack`). -/
def ArraysReadBack : Prop :=
  ∀ ss : List String, ss ≠ [] →
    Cell.ofText (arrayText ss) = .array (ss.map .string) ∧ splitRow (arrayText ss) = [arrayText ss]

theorem arrayText_semicolon : arrayText ["a;b"] = "['a;b']" := by decide +kernel

/-- The semicolon is taken for a separator, although it stands in quotes. -/
theorem ofText_semicolon : Cell.ofText "['a;b']" = .array [.string "'a", .string "b'"] := by
  rfl

/-- The array of the one string `a;b` is read as two strings. -/
theorem not_arraysReadBack : ¬ ArraysReadBack := by
  intro h
  have read := (h ["a;b"] (List.cons_ne_nil _ _)).1
  rw [arrayText_semicolon, ofText_semicolon] at read
  exact absurd (congrArg List.length (Cell.array.inj read)) (by decide)

end PreparedSql
