import PreparedSql.Schema

/-!
# What can be against a statement

A statement can be begun in a context when nothing is against it (`Insert.fault?_eq_none_iff`): it
has its proper shape (`Insert.Proper`), its columns are listed (`Insert.ListedIn`), and it has no
RETURNING list where there is none.
-/

namespace PreparedSql

/-- Columns, each once, and rows, each as wide as the list of columns. -/
structure Insert.Proper (s : Insert) : Prop where
  columns_ne_nil : s.columns ≠ []
  nodup          : s.columns.Nodup
  rows_ne_nil    : s.rows ≠ []
  width          : ∀ row ∈ s.rows, row.length = s.columns.length

/-- Every column and every RETURNING column is a known one, if the schema lists the table. -/
def Insert.ListedIn (c : Context) (s : Insert) : Prop :=
  ∀ known, c.schema.columns? s.table = some known →
    ∀ column ∈ s.columns ++ s.returning, column ∈ known

/-- No name is repeated, and none is one of those seen before. -/
theorem firstRepeated?_eq_none_iff {xs : List String} : ∀ {seen : List String},
    firstRepeated? seen xs = none ↔ xs.Nodup ∧ ∀ x ∈ xs, x ∉ seen := by
  induction xs with
  | nil => simp [firstRepeated?]
  | cons x xs ih =>
      intro seen
      by_cases h : x ∈ seen
      · simp [firstRepeated?, h]
      · rw [firstRepeated?, if_neg h, ih, List.nodup_cons]
        constructor
        · rintro ⟨nodup, fresh⟩
          have absent : x ∉ xs := fun hx => fresh x hx (List.mem_cons_self ..)
          refine ⟨⟨absent, nodup⟩, fun y hy => ?_⟩
          rcases List.mem_cons.1 hy with rfl | hy
          · exact h
          · exact fun hs => fresh y hy (List.mem_cons_of_mem _ hs)
        · rintro ⟨⟨absent, nodup⟩, fresh⟩
          refine ⟨nodup, fun y hy hs => ?_⟩
          rcases List.mem_cons.1 hs with rfl | hs
          · exact absent hy
          · exact fresh y (List.mem_cons_of_mem _ hy) hs

namespace Insert

theorem wrongWidth?_eq_none_iff {width : Nat} {rows : List (List Cell)} : ∀ {index : Nat},
    wrongWidth? width index rows = none ↔ ∀ row ∈ rows, row.length = width := by
  induction rows with
  | nil => simp [wrongWidth?]
  | cons row rows ih =>
      intro index
      rw [wrongWidth?, List.forall_mem_cons]
      split
      · next e => simp [e, ih]
      · next e => simp [e]

/-- Nothing is against the shape of a proper statement, and of no other. -/
theorem shapeFault?_eq_none_iff {s : Insert} : s.shapeFault? = none ↔ s.Proper := by
  constructor
  · intro h
    unfold shapeFault? at h
    split at h
    · cases h
    · next hc =>
        split at h
        · cases h
        · next hd =>
            split at h
            · cases h
            · next hr =>
                exact ⟨by simpa using hc, (firstRepeated?_eq_none_iff.1 hd).1, by simpa using hr,
                  wrongWidth?_eq_none_iff.1 h⟩
  · intro h
    have once : firstRepeated? [] s.columns = none :=
      firstRepeated?_eq_none_iff.2 ⟨h.nodup, by simp⟩
    simp [shapeFault?, h.columns_ne_nil, once, h.rows_ne_nil, wrongWidth?_eq_none_iff.2 h.width]

theorem unknownColumn?_eq_none_iff {c : Context} {s : Insert} :
    s.unknownColumn? c = none ↔ s.ListedIn c := by
  unfold unknownColumn? ListedIn
  cases c.schema.columns? s.table with
  | none => simp
  | some known =>
      simp only [Option.map_eq_none_iff, List.find?_eq_none, Option.some.injEq, forall_eq']
      simp

/-- **Nothing is against a statement** that is proper, listed, and returns only where it can. -/
theorem fault?_eq_none_iff {c : Context} {s : Insert} :
    s.fault? c = none ↔
      s.Proper ∧ s.ListedIn c ∧ (s.returning ≠ [] → c.dialect.supportsReturning) := by
  rw [← shapeFault?_eq_none_iff, ← unknownColumn?_eq_none_iff]
  unfold fault?
  cases s.shapeFault? with
  | some fault => simp
  | none =>
      cases s.unknownColumn? c with
      | some fault => simp
      | none => simp

end Insert

end PreparedSql
