import PreparedSql.Proofs.VectorSupport

/-!
# What a statement is refused for

A statement is judged in two passes. Before a word is written, its shape, its columns and its
RETURNING list are checked, in this order; then its cells are written, row after row. So what is
refused is what is first in this order, and the order says which of several violations is named.

* `Insert.Acceptable`: what is asked of a statement, each condition by itself.
* `Insert.Refused`: which violation is the first, and what is said of it.
* `Draft.fault_ofInsert`: the fault of a statement is the first of four, one for each thing that is
  checked.
* `render_insert_iff`: a statement is rendered exactly when it is acceptable, and else the answer
  is what its first violation says.
-/

namespace PreparedSql

/-! ### Cells -/

/-- An array has a member, and MySQL gets no vector. -/
def Cell.Writable (d : Dialect) (cell : Cell) : Prop :=
  cell ≠ .array [] ∧ (d = .mysql → ¬ cell.HasVector)

/-- What is said of a cell that cannot be written. -/
inductive Cell.Refused : Dialect → Cell → RenderError → Prop where
  | emptyArray (d : Dialect) : Refused d (.array []) .emptyList
  | vector {cell : Cell} (h : cell.HasVector) : Refused .mysql cell (.vectorUnsupported .mysql)

/-- A cell is writable exactly when nothing is said of it. -/
theorem Cell.writable_iff {d : Dialect} {cell : Cell} :
    cell.Writable d ↔ ∀ e, ¬ cell.Refused d e := by
  constructor
  · rintro ⟨array, vector⟩ e h
    cases h with
    | emptyArray => exact array rfl
    | vector h => exact vector rfl h
  · refine fun h => ⟨?_, ?_⟩
    · rintro rfl
      exact h _ (.emptyArray d)
    · rintro rfl vector
      exact h _ (.vector vector)

namespace Draft

/-! ### What a list of drafts ends in -/

theorem fault_others (ds : List Draft) : (others ds).fault = ds.findSome? fault := by
  induction ds with
  | nil => rfl
  | cons x ds ih =>
      rw [others, fault_append, fault_append, ih, List.findSome?_cons]
      cases x.fault <;> rfl

theorem fault_separated (ds : List Draft) :
    (separated ", " ds).fault = ds.findSome? fault := by
  cases ds with
  | nil => rfl
  | cons x ds =>
      rw [separated_cons, fault_append, fault_others, List.findSome?_cons]
      cases x.fault <;> rfl

/-- The first fault of a member. -/
theorem fault_list (ds : List Draft) : (list ds).fault = ds.findSome? fault := by
  rw [list, fault_append, fault_append, fault_separated]
  exact Option.or_none

/-! ### Cells that fail -/

theorem fault_ofValue (d : Dialect) (v : Value) :
    (ofValue d v).fault =
      if d = .mysql ∧ v.kind = .vector then some (.vectorUnsupported .mysql) else none := by
  by_cases h : v.kind = .vector
  · cases d <;> simp [ofValue, isVector_eq, h, Dialect.supportsVector, fail, text]
  · simp [ofValue, isVector_eq, h, text]

/-- Values that stand together: the first vector fails, if vectors do. -/
theorem findSome?_fault_ofValue (d : Dialect) (vs : List Value) :
    vs.findSome? (fun v => (ofValue d v).fault) =
      if d = .mysql ∧ ∃ v ∈ vs, v.kind = .vector then some (.vectorUnsupported .mysql)
      else none := by
  induction vs with
  | nil => simp
  | cons v vs ih =>
      rw [List.findSome?_cons, fault_ofValue, ih]
      by_cases hd : d = .mysql <;> by_cases hv : v.kind = .vector <;> simp [hd, hv]

theorem fault_ofArray (d : Dialect) (vs : List Value) :
    (ofArray d vs).fault =
      if vs = [] then some .emptyList
      else if d = .mysql ∧ ∃ v ∈ vs, v.kind = .vector then some (.vectorUnsupported .mysql)
      else none := by
  cases vs with
  | nil => rfl
  | cons v vs =>
      rw [if_neg (List.cons_ne_nil v vs), ← findSome?_fault_ofValue]
      exact (fault_list _).trans List.findSome?_map

/-- The fault of a cell is what is said of it. -/
theorem fault_ofCell_eq_some_iff {d : Dialect} {cell : Cell} {e : RenderError} :
    (ofCell d cell).fault = some e ↔ cell.Refused d e := by
  constructor
  · intro h
    cases cell with
    | literal v =>
        rw [ofCell, fault_ofValue, Option.ite_none_right_eq_some] at h
        obtain ⟨⟨rfl, vector⟩, e⟩ := h
        cases e
        exact .vector vector
    | slot s => cases h
    | array vs =>
        rw [ofCell, fault_ofArray] at h
        split at h
        · next empty =>
            cases h
            rw [empty]
            exact .emptyArray d
        · rw [Option.ite_none_right_eq_some] at h
          obtain ⟨⟨rfl, vector⟩, e⟩ := h
          cases e
          exact .vector vector
    | column name => cases h
  · intro h
    cases h with
    | emptyArray => rfl
    | vector vector =>
        cases cell with
        | literal v => exact (fault_ofValue _ v).trans (if_pos ⟨rfl, vector⟩)
        | slot s => exact vector.elim
        | array vs =>
            have some : vs ≠ [] := by
              rintro rfl
              obtain ⟨v, hv, -⟩ := vector
              cases hv
            exact (fault_ofArray _ vs).trans ((if_neg some).trans (if_pos ⟨rfl, vector⟩))
        | column name => exact vector.elim

/-- A cell is complete exactly when it is writable. -/
theorem complete_ofCell_iff {d : Dialect} {cell : Cell} :
    (ofCell d cell).Complete ↔ cell.Writable d := by
  rw [Cell.writable_iff, Complete, Option.eq_none_iff_forall_ne_some]
  exact forall_congr' fun e => not_congr fault_ofCell_eq_some_iff

end Draft

/-! ### Statements -/

namespace Insert

/-- What is asked of a statement. -/
structure Acceptable (c : Context) (s : Insert) : Prop where
  proper    : s.Proper
  listed    : s.ListedIn c
  returning : s.returning ≠ [] → c.dialect = .postgres
  cells     : ∀ row ∈ s.rows, ∀ cell ∈ row, cell.Writable c.dialect

/-- What is said of a statement without its proper shape. -/
inductive Misshapen (s : Insert) : RenderError → Prop where
  | noColumns (columns : s.columns = []) : Misshapen s (.noColumns s.table.text)
  | duplicateColumn {before after : List String} {column : String}
      (columns : s.columns = before ++ column :: after)
      (once : before.Nodup) (again : column ∈ before) : Misshapen s (.duplicateColumn column)
  | noRows (columns : s.columns ≠ []) (once : s.columns.Nodup) (rows : s.rows = []) :
      Misshapen s (.noRows s.table.text)
  | rowWidth {before after : List (List Cell)} {row : List Cell}
      (columns : s.columns ≠ []) (once : s.columns.Nodup) (rows : s.rows = before ++ row :: after)
      (width : ∀ r ∈ before, r.length = s.columns.length) (other : row.length ≠ s.columns.length) :
      Misshapen s (.rowWidth before.length row.length s.columns.length)

/-- What is said of a statement that is refused: the first thing in the order of the
constructors, and of several of one sort the first of them. -/
inductive Refused (c : Context) (s : Insert) : RenderError → Prop where
  | shape {e : RenderError} (shape : s.Misshapen e) : Refused c s e
  | unknownColumn {known before after : List String} {column : String}
      (proper : s.Proper) (known_eq : c.schema.columns? s.table = some known)
      (columns : s.columns ++ s.returning = before ++ column :: after)
      (listed : ∀ name ∈ before, name ∈ known) (unknown : column ∉ known) :
      Refused c s (.unknownColumn s.table.text column)
  | returning (proper : s.Proper) (listed : s.ListedIn c)
      (returning : s.returning ≠ []) (dialect : c.dialect ≠ .postgres) :
      Refused c s (.returningUnsupported c.dialect)
  | cell {before after : List Cell} {cell : Cell} {e : RenderError}
      (proper : s.Proper) (listed : s.ListedIn c)
      (returning : s.returning ≠ [] → c.dialect = .postgres)
      (cells : s.rows.flatten = before ++ cell :: after)
      (writable : ∀ other ∈ before, other.Writable c.dialect) (refused : cell.Refused c.dialect e) :
      Refused c s e

end Insert

/-! ### Its shape -/

/-- The first name that is repeated, or is one of those seen before. -/
theorem firstRepeated?_eq_some_iff {xs : List String} {x : String} : ∀ {seen : List String},
    firstRepeated? seen xs = some x ↔
      ∃ before after, xs = before ++ x :: after ∧ before.Nodup ∧ (∀ y ∈ before, y ∉ seen) ∧
        (x ∈ seen ∨ x ∈ before) := by
  induction xs with
  | nil => simp [firstRepeated?]
  | cons y ys ih =>
      intro seen
      by_cases hy : y ∈ seen
      · rw [firstRepeated?, if_pos hy]
        constructor
        · rintro ⟨⟩
          exact ⟨[], ys, rfl, List.nodup_nil, by simp, .inl hy⟩
        · rintro ⟨before, after, e, -, fresh, -⟩
          cases before with
          | nil => rw [(List.cons.inj e).1]
          | cons z before =>
              exact absurd ((List.cons.inj e).1 ▸ hy) (fresh z (List.mem_cons_self ..))
      · rw [firstRepeated?, if_neg hy, ih]
        constructor
        · rintro ⟨before, after, rfl, once, fresh, again⟩
          have absent : y ∉ before := fun h => fresh y h (List.mem_cons_self ..)
          refine ⟨y :: before, after, rfl, List.nodup_cons.2 ⟨absent, once⟩, ?_, ?_⟩
          · exact List.forall_mem_cons.2
              ⟨hy, fun z hz hs => fresh z hz (List.mem_cons_of_mem _ hs)⟩
          · simpa [or_assoc, or_comm, or_left_comm] using again
        · rintro ⟨before, after, e, once, fresh, again⟩
          cases before with
          | nil =>
              obtain ⟨rfl, -⟩ := List.cons.inj e
              exact absurd again (by simp [hy])
          | cons z before =>
              obtain ⟨rfl, rfl⟩ := List.cons.inj e
              obtain ⟨absent, once⟩ := List.nodup_cons.1 once
              refine ⟨before, after, rfl, once, fun w hw hs => ?_, ?_⟩
              · rcases List.mem_cons.1 hs with rfl | hs
                · exact absent hw
                · exact fresh w (List.mem_cons_of_mem _ hw) hs
              · simpa [or_assoc, or_comm, or_left_comm] using again

namespace Insert

/-- The first row of another width, with its number. -/
theorem wrongWidth?_eq_some_iff {width : Nat} {rows : List (List Cell)} {e : RenderError} :
    ∀ {index : Nat}, wrongWidth? width index rows = some e ↔
      ∃ before row after, rows = before ++ row :: after ∧ (∀ r ∈ before, r.length = width) ∧
        row.length ≠ width ∧ e = .rowWidth (index + before.length) row.length width := by
  induction rows with
  | nil => simp [wrongWidth?]
  | cons first rest ih =>
      intro index
      by_cases h : first.length = width
      · rw [wrongWidth?, if_pos h, ih]
        constructor
        · rintro ⟨before, row, after, rfl, same, other, rfl⟩
          exact ⟨first :: before, row, after, rfl, List.forall_mem_cons.2 ⟨h, same⟩, other,
            by simp [Nat.add_assoc, Nat.add_comm 1]⟩
        · rintro ⟨before, row, after, e, same, other, rfl⟩
          cases before with
          | nil => exact absurd ((List.cons.inj e).1 ▸ h) other
          | cons r before =>
              obtain ⟨rfl, rfl⟩ := List.cons.inj e
              exact ⟨before, row, after, rfl, (List.forall_mem_cons.1 same).2, other,
                by simp [Nat.add_assoc, Nat.add_comm 1]⟩
      · rw [wrongWidth?, if_neg h]
        constructor
        · rintro ⟨⟩
          exact ⟨[], first, rest, rfl, by simp, h, rfl⟩
        · rintro ⟨before, row, after, e, same, other, rfl⟩
          cases before with
          | nil => rw [(List.cons.inj e).1]; rfl
          | cons r before =>
              obtain ⟨rfl, -⟩ := List.cons.inj e
              exact absurd (same _ (List.mem_cons_self ..)) h

theorem shapeFault?_eq_some_iff {s : Insert} {e : RenderError} :
    s.shapeFault? = some e ↔ s.Misshapen e := by
  constructor
  · intro h
    unfold shapeFault? at h
    split at h
    · next columns =>
        cases h
        exact .noColumns (by simpa using columns)
    next columns =>
    replace columns : s.columns ≠ [] := by simpa using columns
    split at h
    · next column repeated =>
        cases h
        obtain ⟨before, after, eq, once, -, again⟩ := firstRepeated?_eq_some_iff.1 repeated
        exact .duplicateColumn eq once (by simpa using again)
    next unrepeated =>
    have once := (firstRepeated?_eq_none_iff.1 unrepeated).1
    split at h
    · next rows =>
        cases h
        exact .noRows columns once (by simpa using rows)
    · obtain ⟨before, row, after, rows, width, other, rfl⟩ := wrongWidth?_eq_some_iff.1 h
      rw [Nat.zero_add]
      exact .rowWidth columns once rows width other
  · have unrepeated (once : s.columns.Nodup) : firstRepeated? [] s.columns = none :=
      firstRepeated?_eq_none_iff.2 ⟨once, by simp⟩
    intro h
    cases h with
    | noColumns columns => simp [shapeFault?, columns]
    | duplicateColumn columns once again =>
        have repeated : firstRepeated? [] s.columns = some _ :=
          firstRepeated?_eq_some_iff.2 ⟨_, _, columns, once, by simp, .inr again⟩
        have columns : s.columns ≠ [] := by simp [columns]
        simp [shapeFault?, columns, repeated]
    | noRows columns once rows => simp [shapeFault?, columns, unrepeated once, rows]
    | @rowWidth before after row columns once rows width other =>
        have wrong : wrongWidth? s.columns.length 0 s.rows = some _ :=
          wrongWidth?_eq_some_iff.2 ⟨before, row, after, rows, width, other, rfl⟩
        have rows : s.rows ≠ [] := by simp [rows]
        simpa [shapeFault?, columns, unrepeated once, rows] using wrong

/-! ### Its columns -/

theorem unknownColumn?_eq_some_iff {c : Context} {s : Insert} {e : RenderError} :
    s.unknownColumn? c = some e ↔
      ∃ known before column after, c.schema.columns? s.table = some known ∧
        s.columns ++ s.returning = before ++ column :: after ∧ (∀ name ∈ before, name ∈ known) ∧
        column ∉ known ∧ e = .unknownColumn s.table.text column := by
  unfold unknownColumn?
  cases c.schema.columns? s.table with
  | none => simp
  | some known =>
      simp only [Option.map_eq_some_iff, List.find?_eq_some_iff_append]
      constructor
      · rintro ⟨column, ⟨unknown, before, after, columns, listed⟩, rfl⟩
        exact ⟨known, before, column, after, rfl, columns, by simpa using listed,
          by simpa using unknown, rfl⟩
      · rintro ⟨_, before, column, after, ⟨⟩, columns, listed, unknown, rfl⟩
        exact ⟨column, ⟨by simpa using unknown, before, after, columns, by simpa using listed⟩, rfl⟩

end Insert

/-! ### The whole of it -/

theorem Dialect.supportsReturning_iff {d : Dialect} : d.supportsReturning ↔ d = .postgres := by
  cases d <;> simp [supportsReturning]

namespace Draft

/-- Rows fail where their first cell fails, row after row. -/
theorem findSome?_fault_rows (d : Dialect) (rows : List (List Cell)) :
    (rows.map fun row => list (row.map (ofCell d))).findSome? fault =
      rows.flatten.findSome? fun cell => (ofCell d cell).fault := by
  induction rows with
  | nil => rfl
  | cons row rows ih =>
      have first : (list (row.map (ofCell d))).fault =
          row.findSome? fun cell => (ofCell d cell).fault :=
        (fault_list _).trans List.findSome?_map
      rw [List.map_cons, List.findSome?_cons, ih, first, List.flatten_cons, List.findSome?_append]
      cases row.findSome? fun cell => (ofCell d cell).fault <;> rfl

/-- Names and the words between them are complete, so a body fails where its rows do. -/
theorem fault_insertBody (d : Dialect) (s : Insert) :
    (insertBody d s).fault = s.rows.flatten.findSome? fun cell => (ofCell d cell).fault := by
  have table : (ofTable d s.table).fault = none := complete_ofTable d s.table
  have columns : (list (s.columns.map (ofColumn d))).fault = none :=
    (complete_list_iff _).2 (by simp)
  have returning : (ofReturning d s.returning).fault = none := complete_ofReturning d s.returning
  have text (t : String) : (text t).fault = none := rfl
  simp only [insertBody, fault_append, fault_separated, table, columns, returning, text,
    findSome?_fault_rows, Option.none_or, Option.or_none]

/-- **The fault of a statement** is the first of four. -/
theorem fault_ofInsert (c : Context) (s : Insert) :
    (ofInsert c s).fault =
      s.shapeFault?.or ((s.unknownColumn? c).or
        ((if s.returning ≠ [] ∧ c.dialect ≠ .postgres then some (.returningUnsupported c.dialect)
          else none).or
        (s.rows.flatten.findSome? fun cell => (ofCell c.dialect cell).fault))) := by
  simp only [ofInsert, Insert.fault?, Dialect.supportsReturning_iff]
  cases s.shapeFault? with
  | some fault => rfl
  | none =>
      cases s.unknownColumn? c with
      | some fault => rfl
      | none =>
          by_cases h : s.returning ≠ [] ∧ c.dialect ≠ .postgres
          · simp only [if_pos h]
            rfl
          · simp only [if_neg h, fault_insertBody, Option.none_or]

/-- The fault of a statement is what is said of its first violation. -/
theorem fault_ofInsert_eq_some_iff {c : Context} {s : Insert} {e : RenderError} :
    (ofInsert c s).fault = some e ↔ s.Refused c e := by
  have returns : ¬ (s.returning ≠ [] ∧ c.dialect ≠ .postgres) ↔
      (s.returning ≠ [] → c.dialect = .postgres) := by
    rw [not_and, not_not]
  simp only [fault_ofInsert, Option.or_eq_some_iff, Insert.shapeFault?_eq_some_iff,
    Insert.shapeFault?_eq_none_iff, Insert.unknownColumn?_eq_some_iff,
    Insert.unknownColumn?_eq_none_iff, Option.ite_none_right_eq_some,
    List.findSome?_eq_some_iff, fault_ofCell_eq_some_iff]
  constructor
  · rintro (shape | ⟨proper, column | ⟨listed, returning | ⟨returning, cell⟩⟩⟩)
    · exact .shape shape
    · obtain ⟨known, before, column, after, known_eq, columns, listed, unknown, rfl⟩ := column
      exact .unknownColumn proper known_eq columns listed unknown
    · obtain ⟨⟨returning, dialect⟩, e⟩ := returning
      cases e
      exact .returning proper listed returning dialect
    · obtain ⟨before, cell, after, cells, refused, complete⟩ := cell
      exact .cell proper listed (returns.1 (by simpa using returning)) cells
        (fun other h => complete_ofCell_iff.1 (complete other h)) refused
  · intro h
    cases h with
    | shape shape => exact .inl shape
    | unknownColumn proper known_eq columns listed unknown =>
        exact .inr ⟨proper, .inl ⟨_, _, _, _, known_eq, columns, listed, unknown, rfl⟩⟩
    | returning proper listed returning dialect =>
        exact .inr ⟨proper, .inr ⟨listed, .inl ⟨⟨returning, dialect⟩, rfl⟩⟩⟩
    | cell proper listed returning cells writable refused =>
        exact .inr ⟨proper, .inr ⟨listed, .inr ⟨if_neg (returns.2 returning), _, _, _, cells,
          refused, fun other h => complete_ofCell_iff.2 (writable other h)⟩⟩⟩

theorem complete_ofInsert_iff_acceptable {c : Context} {s : Insert} :
    (ofInsert c s).Complete ↔ s.Acceptable c := by
  simp only [complete_ofInsert_iff, Insert.fault?_eq_none_iff, complete_ofCell_iff,
    Dialect.supportsReturning_iff]
  constructor
  · rintro ⟨⟨proper, listed, returning⟩, cells⟩
    exact ⟨proper, listed, returning, cells⟩
  · rintro ⟨proper, listed, returning, cells⟩
    exact ⟨⟨proper, listed, returning⟩, cells⟩

end Draft

/-- **What a statement is refused for.** A statement is rendered exactly when it is acceptable, and
it is answered by an error exactly when the error is what is said of its first violation. -/
theorem render_insert_iff (c : Context) (s : Insert) :
    ((∃ r, (Node.insert s).render c = .ok r) ↔ s.Acceptable c) ∧
    ∀ e, (Node.insert s).render c = .error e ↔ ∃ fault, e = .render fault ∧ s.Refused c fault := by
  simp only [← Draft.complete_ofInsert_iff_acceptable, ← Draft.fault_ofInsert_eq_some_iff,
    Draft.Complete, Node.render_eq, Draft.ofNode]
  cases (Draft.ofInsert c s).fault with
  | none => simp
  | some fault => simp [eq_comm]

/-- A column twice, no rows and a RETURNING list in MySQL: the column is named. -/
example : (Node.insert ⟨⟨none, "t"⟩, ["a", "b", "a"], [], ["a"]⟩).render ⟨.mysql, {}⟩ =
    .error (.render (.duplicateColumn "a")) := rfl

end PreparedSql
