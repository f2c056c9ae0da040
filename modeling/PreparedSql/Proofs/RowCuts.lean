import Mathlib.Algebra.Group.Nat.Even
import PreparedSql.Proofs.RowSplitting

/-!
# The one way to cut a row

Which texts a row is cut into can be said without cutting it: with commas between them they are the
row, each but the last closes the quotes that it opens, and no comma in one of them has an even
number of quotes in front (`IsCut`).  Every row has texts like that, also one that ends in open
quotes, and it has no others.

The row is gone through once, and from character to character it is known whether quotes are open.
Where they are, the first text begins in quotes and the later ones do not (`CutFrom`), and that is
kept by each character (`cutFrom_splitOutsideQuotes`).

* `splitOutsideQuotes_induction`: what a cut does at each character.
* `joinWith_splitOutsideQuotes`: a cut loses nothing but the commas.
* `commasQuoted_iff`: that commas stand in quotes, said by what is in front of each.
* `splitRow_eq_iff`: what a row is cut into.
-/

namespace PreparedSql

/-! ### Texts with commas between them -/

theorem joinWith_eq_intercalate (separator : List Char) (parts : List (List Char)) :
    joinWith separator parts = separator.intercalate parts := by
  induction parts with
  | nil => rfl
  | cons part parts ih =>
      cases parts with
      | nil => simp [joinWith]
      | cons next parts => simp [joinWith, ih]

theorem rowOf_eq_intercalate (cells : List String) : rowOf cells = ",".intercalate cells := by
  rw [rowOf, joinWith_eq_intercalate, ← String.toList_inj, String.toList_intercalate,
    String.toList_ofList]
  rfl

/-! ### What a cut does at each character -/

/-- A comma outside quotes begins an empty text, and any other character is added to the first. -/
theorem splitOutsideQuotes_induction {p : Bool → List Char → List (List Char) → Prop}
    (nil : ∀ quoted, p quoted [] [[]])
    (comma : ∀ cs cell cells, p false cs (cell :: cells) →
      p false (',' :: cs) ([] :: cell :: cells))
    (character : ∀ quoted c cs cell cells, (c = ',' → quoted = true) →
      p (quotedBehind quoted c) cs (cell :: cells) → p quoted (c :: cs) ((c :: cell) :: cells))
    (quoted : Bool) (cs : List Char) : p quoted cs (splitOutsideQuotes quoted cs) := by
  induction cs generalizing quoted with
  | nil => exact nil quoted
  | cons c cs ih =>
      -- what is behind the character has a first text, which the character joins or ends up before
      obtain ⟨cell, cells, e⟩ :=
        List.exists_cons_of_ne_nil (splitOutsideQuotes_ne_nil (quotedBehind quoted c) cs)
      have rest := ih (quotedBehind quoted c)
      rw [e] at rest
      by_cases h : c = ',' → quoted = true
      · rw [splitOutsideQuotes_cons h, e]
        exact character quoted c cs cell cells h rest
      · obtain ⟨rfl, outside⟩ := Classical.not_imp.1 h
        obtain rfl := Bool.eq_false_iff.2 outside
        have stays : quotedBehind false ',' = false := rfl
        rw [stays] at e rest
        rw [splitOutsideQuotes_comma, e]
        exact comma cs cell cells rest

/-- **A cut loses nothing** but the commas. -/
theorem joinWith_splitOutsideQuotes (quoted : Bool) (cs : List Char) :
    joinWith [','] (splitOutsideQuotes quoted cs) = cs := by
  induction quoted, cs using splitOutsideQuotes_induction with
  | nil quoted => rfl
  | comma cs cell cells rest => simpa [joinWith] using rest
  | character quoted c cs cell cells _ rest =>
      have front : joinWith [','] ((c :: cell) :: cells) = c :: joinWith [','] (cell :: cells) := by
        cases cells <;> rfl
      rw [front, rest]

/-! ### Commas in quotes -/

/-- Every comma stands in quotes exactly when quotes are open in front of each. -/
theorem commasQuoted_iff {quoted : Bool} {cs : List Char} :
    CommasQuoted quoted cs ↔
      ∀ before after, cs = before ++ ',' :: after → quotesOpen quoted before = true := by
  induction cs generalizing quoted with
  | nil => simp [CommasQuoted]
  | cons c cs ih =>
      rw [CommasQuoted, ih]
      constructor
      · rintro ⟨first, later⟩ before after e
        cases before with
        | nil => exact first (List.cons.inj e).1
        | cons b before =>
            obtain ⟨rfl, rest⟩ := List.cons.inj e
            exact later before after rest
      · intro h
        refine ⟨?_, fun before after e => h (c :: before) after (by rw [e, List.cons_append])⟩
        rintro rfl
        exact h [] cs rfl

/-- What a text with these quotes in front of it is cut into: its commas all stand in quotes, and
but for the last one it closes them. -/
inductive CutFrom : (quoted : Bool) → List (List Char) → Prop where
  | last {quoted : Bool} {cell : List Char} (commas : CommasQuoted quoted cell) :
      CutFrom quoted [cell]
  | cons {quoted : Bool} {cell : List Char} {cells : List (List Char)}
      (commas : CommasQuoted quoted cell) (closed : quotesOpen quoted cell = false)
      (rest : CutFrom false cells) : CutFrom quoted (cell :: cells)

theorem cutFrom_splitOutsideQuotes (quoted : Bool) (cs : List Char) :
    CutFrom quoted (splitOutsideQuotes quoted cs) := by
  induction quoted, cs using splitOutsideQuotes_induction with
  | nil quoted => exact .last trivial
  | comma cs cell cells rest => exact .cons trivial rfl rest
  | character quoted c cs cell cells h rest =>
      cases rest with
      | last commas => exact .last ⟨h, commas⟩
      | cons commas closed rest => exact .cons ⟨h, commas⟩ closed rest

namespace CutFrom

variable {cells : List (List Char)}

theorem commas (cut : CutFrom false cells) : ∀ cell ∈ cells, CommasQuoted false cell := by
  induction cells with
  | nil => exact List.forall_mem_nil _
  | cons cell cells ih =>
      cases cut with
      | last commas => exact List.forall_mem_singleton.2 commas
      | cons commas _ rest => exact List.forall_mem_cons.2 ⟨commas, ih rest⟩

theorem closed (cut : CutFrom false cells) :
    ∀ cell ∈ cells.dropLast, quotesOpen false cell = false := by
  induction cells with
  | nil => exact List.forall_mem_nil _
  | cons cell cells ih =>
      cases cut with
      | last _ => exact List.forall_mem_nil _
      | cons _ closed rest =>
          have next : cells ≠ [] := by rintro rfl; cases rest
          rw [List.dropLast_cons_of_ne_nil next]
          exact List.forall_mem_cons.2 ⟨closed, ih rest⟩

end CutFrom

/-! ### Cuts of a row -/

/-- What a row is to be cut into. -/
structure IsCut (row : String) (cells : List String) : Prop where
  ne_nil : cells ≠ []
  joined : ",".intercalate cells = row
  closed : ∀ cell ∈ cells.dropLast, Even (cell.toList.count '\'')
  commas : ∀ cell ∈ cells, ∀ before after, cell.toList = before ++ ',' :: after →
    ¬ Even (before.count '\'')

theorem even_count_quotes_iff (cs : List Char) :
    Even (cs.count '\'') ↔ quotesOpen false cs = false := by
  rw [Nat.even_iff, quotesOpen_eq_false_iff]

/-- All commas stand in quotes exactly when none has an even number of quotes in front. -/
theorem commasQuoted_false_iff {cs : List Char} :
    CommasQuoted false cs ↔
      ∀ before after, cs = before ++ ',' :: after → ¬ Even (before.count '\'') := by
  simp only [commasQuoted_iff, even_count_quotes_iff, Bool.not_eq_false]

theorem isCut_splitRow (row : String) : IsCut row (splitRow row) where
  ne_nil := by simpa [splitRow] using splitOutsideQuotes_ne_nil false row.toList
  joined := by
    rw [← rowOf_eq_intercalate, rowOf, splitRow, List.map_map]
    simp [Function.comp_def, joinWith_splitOutsideQuotes]
  closed := by
    rw [splitRow, ← List.map_dropLast, List.forall_mem_map]
    intro cs mem
    rw [String.toList_ofList, even_count_quotes_iff]
    exact (cutFrom_splitOutsideQuotes false row.toList).closed cs mem
  commas := by
    rw [splitRow, List.forall_mem_map]
    intro cs mem
    rw [String.toList_ofList, ← commasQuoted_false_iff]
    exact (cutFrom_splitOutsideQuotes false row.toList).commas cs mem

/-- Texts with all their commas in quotes are not cut again, and where each but the last closes its
quotes, the commas between them are where the row is cut. -/
theorem IsCut.splitRow {row : String} {cells : List String} (cut : IsCut row cells) :
    splitRow row = cells := by
  have closed : ∀ c ∈ cells.dropLast, quotesOpen false c.toList = false := fun c hc =>
    (even_count_quotes_iff _).1 (cut.closed c hc)
  have single : ∀ c ∈ cells, PreparedSql.splitRow c = [c] := fun c hc =>
    splitRow_of_commasQuoted (commasQuoted_false_iff.2 (cut.commas c hc))
  rw [← cut.joined, ← rowOf_eq_intercalate, splitRow_rowOf cut.ne_nil closed,
    List.flatMap_congr single, List.flatMap_singleton']

/-- **What a row is cut into.**  Every row, whether or not its quotes are closed, has one cut of
this kind, and that is how it is cut. -/
theorem splitRow_eq_iff (row : String) (cells : List String) :
    splitRow row = cells ↔ IsCut row cells := by
  constructor
  · rintro rfl
    exact isCut_splitRow row
  · exact IsCut.splitRow

/-- Nothing stands in front of the first comma, and the last quote stays open. -/
example : splitRow ",a'b,c'd,'e,f" = ["", "a'b,c'd", "'e,f"] := by decide

end PreparedSql
