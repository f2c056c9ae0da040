import Mathlib.Data.List.Basic
import PreparedSql.CommandLine.Cell
import PreparedSql.Proofs.Reading

/-!
# How a row is cut into cells

The text of a row is cut at the commas outside single quotes.  Where a text closes the quotes that
it opens, a comma behind it is such a comma, so what stands in front of that comma and what stands
behind it are cut by themselves (`splitOutsideQuotes_append_comma`).

* `splitRow_rowOf`: a row of texts that close their quotes is cut text by text.
* `splitRow_of_standsWhole`: it is cut into just these texts where they have no comma outside
  quotes either (`StandsWhole`).
* `StandsWhole.singleQuoted`: text in single quotes, with the quotes in it written twice, is such a
  text, whatever it holds.
-/

namespace PreparedSql

/-! ### Quotes -/

/-- Whether quotes are open behind a character, where `quoted` says whether they are in front. -/
def quotedBehind (quoted : Bool) (c : Char) : Bool := if c = '\'' then !quoted else quoted

/-- Whether quotes are open behind a text. -/
def quotesOpen (quoted : Bool) (cs : List Char) : Bool := cs.foldl quotedBehind quoted

/-- Every comma of the text stands in quotes. -/
def CommasQuoted : (quoted : Bool) → List Char → Prop
  | _, [] => True
  | quoted, c :: cs => (c = ',' → quoted = true) ∧ CommasQuoted (quotedBehind quoted c) cs

theorem quotesOpen_cons (quoted : Bool) (c : Char) (cs : List Char) :
    quotesOpen quoted (c :: cs) = quotesOpen (quotedBehind quoted c) cs := rfl

theorem quotesOpen_append (quoted : Bool) (cs ds : List Char) :
    quotesOpen quoted (cs ++ ds) = quotesOpen (quotesOpen quoted cs) ds := List.foldl_append

theorem quotedBehind_of_ne {c : Char} (h : c ≠ '\'') (quoted : Bool) :
    quotedBehind quoted c = quoted := if_neg h

theorem CommasQuoted.append {quoted : Bool} {cs ds : List Char} (hc : CommasQuoted quoted cs)
    (hd : CommasQuoted (quotesOpen quoted cs) ds) : CommasQuoted quoted (cs ++ ds) := by
  induction cs generalizing quoted with
  | nil => exact hd
  | cons c cs ih => exact ⟨hc.1, ih hc.2 hd⟩

/-- Quotes are closed again behind an even number of them. -/
theorem quotesOpen_eq_false_iff (cs : List Char) :
    quotesOpen false cs = false ↔ cs.count '\'' % 2 = 0 := by
  have parity (quoted : Bool) :
      quotesOpen quoted cs = (quoted ^^ decide (cs.count '\'' % 2 = 1)) := by
    induction cs generalizing quoted with
    | nil => cases quoted <;> rfl
    | cons c cs ih =>
        rw [quotesOpen_cons, ih, quotedBehind]
        by_cases h : c = '\''
        · subst h
          have turned : decide ((cs.count '\'' + 1) % 2 = 1) = !decide (cs.count '\'' % 2 = 1) := by
            rw [← decide_not, decide_eq_decide]
            omega
          rw [if_pos rfl, List.count_cons_self, turned, Bool.not_xor, Bool.xor_not]
        · rw [if_neg h, List.count_cons_of_ne h]
  rw [parity, Bool.false_xor, decide_eq_false_iff_not]
  omega

/-! ### Splitting -/

theorem splitOutsideQuotes_ne_nil (quoted : Bool) (cs : List Char) :
    splitOutsideQuotes quoted cs ≠ [] := by
  cases cs with
  | nil => simp [splitOutsideQuotes]
  | cons c cs =>
      rw [splitOutsideQuotes]
      split
      · simp
      · split <;> simp

/-- A comma outside quotes ends a cell. -/
theorem splitOutsideQuotes_comma (cs : List Char) :
    splitOutsideQuotes false (',' :: cs) = [] :: splitOutsideQuotes false cs := by
  rw [splitOutsideQuotes, if_pos (by decide)]

/-- Any other character belongs to the first cell. -/
theorem splitOutsideQuotes_cons {quoted : Bool} {c : Char} (h : c = ',' → quoted = true)
    (cs : List Char) :
    splitOutsideQuotes quoted (c :: cs) =
      (splitOutsideQuotes (quotedBehind quoted c) cs).modifyHead (c :: ·) := by
  rw [splitOutsideQuotes, if_neg (by simpa using h)]
  obtain ⟨cell, cells, e⟩ :=
    List.exists_cons_of_ne_nil (splitOutsideQuotes_ne_nil (quotedBehind quoted c) cs)
  rw [quotedBehind] at e ⊢
  rw [e]
  rfl

/-- **A comma behind closed quotes cuts the text** in two that are cut by themselves. -/
theorem splitOutsideQuotes_append_comma {quoted : Bool} {cs : List Char}
    (closed : quotesOpen quoted cs = false) (rest : List Char) :
    splitOutsideQuotes quoted (cs ++ ',' :: rest) =
      splitOutsideQuotes quoted cs ++ splitOutsideQuotes false rest := by
  induction cs generalizing quoted with
  | nil =>
      obtain rfl : quoted = false := closed
      exact splitOutsideQuotes_comma rest
  | cons c cs ih =>
      rw [quotesOpen_cons] at closed
      by_cases h : c = ',' → quoted = true
      · obtain ⟨cell, cells, e⟩ :=
          List.exists_cons_of_ne_nil (splitOutsideQuotes_ne_nil (quotedBehind quoted c) cs)
        rw [List.cons_append, splitOutsideQuotes_cons h, splitOutsideQuotes_cons h, ih closed, e]
        rfl
      · obtain ⟨rfl, outside⟩ := Classical.not_imp.1 h
        obtain rfl := Bool.eq_false_iff.2 outside
        have rest_closed : quotesOpen false cs = false := closed
        rw [List.cons_append, splitOutsideQuotes_comma, splitOutsideQuotes_comma, ih rest_closed]
        rfl

theorem splitOutsideQuotes_of_commasQuoted {quoted : Bool} {cs : List Char}
    (h : CommasQuoted quoted cs) : splitOutsideQuotes quoted cs = [cs] := by
  induction cs generalizing quoted with
  | nil => cases quoted <;> rfl
  | cons c cs ih => rw [splitOutsideQuotes_cons h.1, ih h.2]; rfl

theorem splitRow_of_commasQuoted {s : String} (h : CommasQuoted false s.toList) :
    splitRow s = [s] := by
  rw [splitRow, splitOutsideQuotes_of_commasQuoted h, List.map_singleton, String.ofList_toList]

theorem splitOutsideQuotes_joinWith {cells : List (List Char)} (ne : cells ≠ [])
    (closed : ∀ c ∈ cells.dropLast, quotesOpen false c = false) :
    splitOutsideQuotes false (joinWith [','] cells) = cells.flatMap (splitOutsideQuotes false) := by
  induction cells with
  | nil => exact absurd rfl ne
  | cons cell cells ih =>
      cases cells with
      | nil => simp [joinWith]
      | cons next cells =>
          obtain ⟨first, others⟩ := List.forall_mem_cons.1 closed
          have joined : joinWith [','] (cell :: next :: cells) =
              cell ++ ',' :: joinWith [','] (next :: cells) := by simp [joinWith]
          rw [joined, splitOutsideQuotes_append_comma first, ih (List.cons_ne_nil _ _) others]
          rfl

/-- The texts of the cells with commas between them. -/
def rowOf (cells : List String) : String :=
  String.ofList (joinWith [','] (cells.map String.toList))

/-- **Texts that close their quotes**, the last one perhaps not, are cut by themselves. -/
theorem splitRow_rowOf {cells : List String} (ne : cells ≠ [])
    (closed : ∀ c ∈ cells.dropLast, quotesOpen false c.toList = false) :
    splitRow (rowOf cells) = cells.flatMap splitRow := by
  have texts : ∀ c ∈ (cells.map String.toList).dropLast, quotesOpen false c = false := by
    rw [← List.map_dropLast]
    exact List.forall_mem_map.2 closed
  rw [splitRow, rowOf, String.toList_ofList,
    splitOutsideQuotes_joinWith (by simpa using ne) texts, List.flatMap_map, List.map_flatMap]
  rfl

/-! ### Texts that stand whole -/

/-- A text that is one cell, and lets the next begin. -/
structure StandsWhole (cs : List Char) : Prop where
  commas : CommasQuoted false cs
  closed : quotesOpen false cs = false

theorem StandsWhole.splitRow {s : String} (h : StandsWhole s.toList) : splitRow s = [s] :=
  splitRow_of_commasQuoted h.commas

/-- In a row of texts that close their quotes, the last one perhaps not, it is one cell. -/
theorem StandsWhole.splitRow_rowOf {s : String} (whole : StandsWhole s.toList)
    {before after : List String}
    (closed : ∀ c ∈ before ++ after.dropLast, quotesOpen false c.toList = false) :
    PreparedSql.splitRow (rowOf (before ++ s :: after)) =
      before.flatMap PreparedSql.splitRow ++ s :: after.flatMap PreparedSql.splitRow := by
  have others : ∀ c ∈ (before ++ s :: after).dropLast, quotesOpen false c.toList = false := by
    intro c hc
    rw [List.dropLast_append_cons, List.mem_append] at hc
    rcases hc with hc | hc
    · exact closed c (List.mem_append_left _ hc)
    · cases after with
      | nil => cases hc
      | cons next after =>
          rcases List.mem_cons.1 hc with rfl | hc
          · exact whole.closed
          · exact closed c (List.mem_append_right _ hc)
  rw [PreparedSql.splitRow_rowOf (by simp) others, List.flatMap_append, List.flatMap_cons,
    whole.splitRow]
  rfl

/-- So it is read by itself, without the blanks around it. -/
theorem StandsWhole.cellsOfText_rowOf {s : String} (whole : StandsWhole s.toList)
    {before after : List String}
    (closed : ∀ c ∈ before ++ after.dropLast, quotesOpen false c.toList = false) :
    cellsOfText (rowOf (before ++ s :: after)) =
      before.flatMap cellsOfText ++
        .ofText (String.ofList (trim s.toList)) :: after.flatMap cellsOfText := by
  rw [cellsOfText, whole.splitRow_rowOf closed, List.map_append, List.map_cons, List.map_flatMap,
    List.map_flatMap]
  rfl

/-- A row of such texts is cut into just these. -/
theorem splitRow_of_standsWhole {cells : List String} (ne : cells ≠ [])
    (whole : ∀ c ∈ cells, StandsWhole c.toList) : splitRow (rowOf cells) = cells := by
  have single : ∀ c ∈ cells, splitRow c = [c] := fun c hc => (whole c hc).splitRow
  rw [splitRow_rowOf ne fun c hc => (whole c (List.dropLast_subset _ hc)).closed,
    List.flatMap_congr single, List.flatMap_singleton']

/-- Text without commas and quotes. -/
theorem StandsWhole.of_notMem {cs : List Char} (comma : ',' ∉ cs) (quote : '\'' ∉ cs) :
    StandsWhole cs := by
  induction cs with
  | nil => exact ⟨trivial, rfl⟩
  | cons c cs ih =>
      simp only [List.mem_cons, not_or] at comma quote
      obtain ⟨commas, closed⟩ := ih comma.2 quote.2
      have stays : quotedBehind false c = false := quotedBehind_of_ne (Ne.symm quote.1) false
      refine ⟨⟨fun e => absurd e.symm comma.1, ?_⟩, ?_⟩
      · rwa [stays]
      · rwa [quotesOpen_cons, stays]

/-- Quotes that are written twice leave quotes open or closed as they are. -/
theorem quotesOpen_doubled (quoted : Bool) (cs : List Char) :
    quotesOpen quoted (doubled '\'' cs) = quoted := by
  induction cs with
  | nil => rfl
  | cons c cs ih =>
      rw [doubled_cons, quotesOpen_append]
      by_cases h : c = '\''
      · subst h
        cases quoted <;> exact ih
      · have single : quotesOpen quoted [c] = quoted := quotedBehind_of_ne h quoted
        rw [if_neg h, single, ih]

theorem commasQuoted_doubled (cs : List Char) : CommasQuoted true (doubled '\'' cs) := by
  induction cs with
  | nil => exact trivial
  | cons c cs ih =>
      rw [doubled_cons]
      by_cases h : c = '\''
      · subst h
        exact ⟨fun _ => rfl, fun e => absurd e (by decide), ih⟩
      · rw [if_neg h]
        refine ⟨fun _ => rfl, ?_⟩
        rwa [quotedBehind_of_ne h]

/-- **Text in single quotes**, with the quotes in it written twice, whatever it holds. -/
theorem StandsWhole.singleQuoted (cs : List Char) : StandsWhole (singleQuoted cs) where
  commas := ⟨fun e => absurd e (by decide),
    (commasQuoted_doubled cs).append ⟨fun e => absurd e (by decide), trivial⟩⟩
  closed := by
    rw [PreparedSql.singleQuoted, quotesOpen_cons, quotesOpen_append, quotesOpen_doubled]
    rfl

end PreparedSql
