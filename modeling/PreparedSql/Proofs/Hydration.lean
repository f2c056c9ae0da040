import Mathlib.Data.List.Forall2
import Mathlib.Data.List.Nodup
import PreparedSql.Hydrate.Plan

/-!
# A row is hydrated column by column

A plan looks the columns of a result set up once, in an index from names to places, and writes
every row by place.  What that comes to is said here without the index: the columns are gone
through from left to right, each is written by the last field that has its name, and a column
without a value is null (`Plan.hydrate`).

* `Plan.getElem?_index`: the field at the place of a column is the last one with its name.
* `Plan.scan_eq`: a row is hydrated column by column.
* `scan_by_name`: so it is for all plans and rows, and a result set with one list of columns is
  hydrated row by row, up to the first row that fails.
-/

namespace PreparedSql

/-! ### Results -/

section

variable {α β ε ε' : Type} {x : Except ε α}

theorem bind_eq_ok_iff {f : α → Except ε β} {b : β} :
    x >>= f = .ok b ↔ ∃ a, x = .ok a ∧ f a = .ok b := by
  cases x <;> simp [bind, Except.bind]

/-- What fails, fails at its first step or after it. -/
theorem bind_eq_error_iff {f : α → Except ε β} {e : ε} :
    x >>= f = .error e ↔ x = .error e ∨ ∃ a, x = .ok a ∧ f a = .error e := by
  cases x <;> simp [bind, Except.bind]

theorem map_eq_ok_iff {f : α → β} {b : β} : f <$> x = .ok b ↔ ∃ a, x = .ok a ∧ f a = b := by
  cases x <;> simp [Functor.map, Except.map]

theorem mapError_eq_ok_iff {f : ε → ε'} {a : α} : x.mapError f = .ok a ↔ x = .ok a := by
  cases x <;> simp [Except.mapError]

theorem mapError_eq_error_iff {f : ε → ε'} {e : ε'} :
    x.mapError f = .error e ↔ ∃ cause, x = .error cause ∧ f cause = e := by
  cases x <;> simp [Except.mapError]

end

section

variable {α β ε : Type} {f g : α → Except ε β}

theorem mapM_congr {xs : List α} (h : ∀ x ∈ xs, f x = g x) : xs.mapM f = xs.mapM g := by
  induction xs with
  | nil => rfl
  | cons x xs ih =>
      obtain ⟨head, tail⟩ := List.forall_mem_cons.1 h
      rw [List.mapM_cons, List.mapM_cons, head, ih tail]

/-- The first failure is the failure of all. -/
theorem mapM_cons_of_error {x : α} {e : ε} (h : f x = .error e) (xs : List α) :
    (x :: xs).mapM f = .error e := by
  rw [List.mapM_cons, h]
  rfl

theorem mapM_cons_of_ok {x : α} {y : β} (h : f x = .ok y) (xs : List α) :
    (x :: xs).mapM f = (xs.mapM f).map (y :: ·) := by
  rw [List.mapM_cons, h]
  cases xs.mapM f <;> rfl

/-- All succeed, with these results. -/
theorem mapM_eq_ok_iff {xs : List α} {ys : List β} :
    xs.mapM f = .ok ys ↔ List.Forall₂ (fun x y => f x = .ok y) xs ys := by
  induction xs generalizing ys with
  | nil => cases ys <;> simp [pure, Except.pure]
  | cons x xs ih =>
      rw [List.forall₂_cons_left_iff]
      cases head : f x with
      | error e => simp [mapM_cons_of_error head]
      | ok y =>
          rw [mapM_cons_of_ok head]
          cases rest : xs.mapM f <;> simp [Except.map, ← ih, rest, eq_comm]

/-- What stands before the first failure does not matter, nor does what stands behind it. -/
theorem mapM_append_of_error {before : List α} (succeed : ∀ a ∈ before, ∃ b, f a = .ok b)
    {x : α} {e : ε} (fails : f x = .error e) (after : List α) :
    (before ++ x :: after).mapM f = .error e := by
  induction before with
  | nil => exact mapM_cons_of_error fails after
  | cons a before ih =>
      obtain ⟨⟨y, head⟩, rest⟩ := List.forall_mem_cons.1 succeed
      rw [List.cons_append, mapM_cons_of_ok head, ih rest]
      rfl

/-- The first one that fails has this error. -/
theorem mapM_eq_error_iff {xs : List α} {e : ε} :
    xs.mapM f = .error e ↔ ∃ before x after, xs = before ++ x :: after ∧
      (∀ a ∈ before, ∃ b, f a = .ok b) ∧ f x = .error e := by
  constructor
  · intro failed
    induction xs with
    | nil => cases failed
    | cons x xs ih =>
        cases head : f x with
        | error e' =>
            rw [mapM_cons_of_error head] at failed
            obtain rfl := Except.error.inj failed
            exact ⟨[], x, xs, rfl, by simp, head⟩
        | ok y =>
            have rest : xs.mapM f = .error e := by
              rw [mapM_cons_of_ok head] at failed
              cases h : xs.mapM f <;> simp_all [Except.map]
            obtain ⟨before, a, after, rfl, succeed, fails⟩ := ih rest
            exact ⟨x :: before, a, after, rfl, List.forall_mem_cons.2 ⟨⟨y, head⟩, succeed⟩, fails⟩
  · rintro ⟨before, x, after, rfl, succeed, fails⟩
    exact mapM_append_of_error succeed fails after

end

/-! ### The reference -/

/-- The columns of a row with their values, null where the row has none. -/
def Row.cells (r : Row) : List (String × Value) :=
  r.columns.zipIdx.map fun c => (c.1, r.values[c.2]?.getD .null)

theorem Row.map_fst_cells (r : Row) : r.cells.map Prod.fst = r.columns := by
  rw [cells, List.map_map]
  exact List.zipIdx_map_fst 0 r.columns

/-- A column without a value in the row has a null. -/
theorem Row.getElem?_cells (r : Row) (i : Nat) :
    r.cells[i]? = r.columns[i]?.map fun c => (c, r.values[i]?.getD .null) := by
  simp [cells, Function.comp_def]

namespace Plan

variable {α : Type} (p : Plan α)

/-- The last field with this column. -/
def fieldOf? (column : String) : Option (Field α) :=
  p.fields.reverse.find? fun f => f.column = column

/-- The record with one column written: as it was, if no field has the column. -/
def writeCell (target : α) (cell : String × Value) : Except Error α :=
  match p.fieldOf? cell.1 with
  | none   => pure target
  | some f => (f.write target cell.2).mapError fun e => .scan cell.1 (Error.conversion e).message

/-- The record with the columns written from left to right, up to the first one that fails. -/
def hydrate [Inhabited α] (r : Row) : Except Error α := r.cells.foldlM p.writeCell default

/-! ### The index -/

section

variable {p} {column : String} {f : Field α}

/-- A field is found by its column. -/
theorem column_of_fieldOf? (h : p.fieldOf? column = some f) : f.column = column := by
  simpa using List.find?_some h

theorem mem_of_fieldOf? (h : p.fieldOf? column = some f) : f ∈ p.fields :=
  List.mem_reverse.1 (List.mem_of_find?_eq_some h)

/-- Where no two fields have the same column, each is the field of its own. -/
theorem fieldOf?_column (distinct : (p.fields.map Field.column).Nodup) (hf : f ∈ p.fields) :
    p.fieldOf? f.column = some f := by
  cases found : p.fieldOf? f.column with
  | none =>
      have other := List.find?_eq_none.1 found f (List.mem_reverse.2 hf)
      simp at other
  | some g =>
      rw [List.inj_on_of_nodup_map distinct (mem_of_fieldOf? found) hf (column_of_fieldOf? found)]

variable {target target' : α} {v : Value}

/-- A column without a field is passed over. -/
theorem writeCell_of_none (h : p.fieldOf? column = none) :
    p.writeCell target (column, v) = .ok target := by
  rw [writeCell, h]
  rfl

/-- A failure to write says which column it was. -/
theorem writeCell_of_some (h : p.fieldOf? column = some f) :
    p.writeCell target (column, v) =
      (f.write target v).mapError fun e => .scan column (Error.conversion e).message := by
  rw [writeCell, h]

theorem write_of_writeCell (h : p.fieldOf? column = some f)
    (written : p.writeCell target (column, v) = .ok target') : f.write target v = .ok target' := by
  rw [writeCell_of_some h] at written
  exact mapError_eq_ok_iff.1 written

end

/-- **The field at the place of a column** is the last one that has it. -/
theorem getElem?_index (column : String) :
    ((p.index.get? column).bind fun i => p.fields[i]?) = p.fieldOf? column := by
  -- index and fields are two views of the fields with their places, searched from the back
  have places : p.index.get? column =
      (p.fields.zipIdx.reverse.find? fun f => f.1.column = column).map Prod.snd := by
    rw [index, Store.get?_ofList, ← List.map_reverse, List.find?_map, Option.map_map]
    rfl
  have named : p.fieldOf? column =
      (p.fields.zipIdx.reverse.find? fun f => f.1.column = column).map Prod.fst := by
    have fields : p.fields.reverse = p.fields.zipIdx.reverse.map Prod.fst := by
      rw [List.map_reverse, List.zipIdx_map_fst]
    rw [fieldOf?, fields, List.find?_map]
    rfl
  rw [places, named]
  cases found : p.fields.zipIdx.reverse.find? fun f => f.1.column = column with
  | none => rfl
  | some f =>
      have place : p.fields[f.2]? = some f.1 :=
        List.mem_zipIdx_iff_getElem?.1 (List.mem_reverse.1 (List.mem_of_find?_eq_some found))
      exact place

/-! ### Rows -/

/-- Writing by place is writing by name. -/
theorem write_index (values : List Value) (columns : List String) :
    ∀ (pos : Nat) (target : α), p.write values pos (columns.map p.index.get?) target =
      ((columns.zipIdx pos).map fun c => (c.1, values[c.2]?.getD .null)).foldlM p.writeCell
        target := by
  induction columns with
  | nil => exact fun _ _ => rfl
  | cons column columns ih =>
      intro pos target
      rw [List.map_cons, write, getElem?_index, List.zipIdx_cons, List.map_cons, List.foldlM_cons,
        writeCell]
      cases named : p.fieldOf? column with
      | none => exact ih (pos + 1) target
      | some f =>
          obtain rfl := column_of_fieldOf? named
          cases written : f.write target (values[pos]?.getD .null) with
          | ok target =>
              simp only [written]
              exact ih (pos + 1) target
          | error e =>
              simp only [written]
              rfl

/-- **A row is hydrated column by column.** -/
theorem scan_eq [Inhabited α] (r : Row) : p.scan r = p.hydrate r :=
  p.write_index r.values r.columns 0 default

theorem error_of_writeCell {target : α} {cell : String × Value} {e : Error}
    (h : p.writeCell target cell = .error e) : ∃ message, e = .scan cell.1 message := by
  cases named : p.fieldOf? cell.1 with
  | none =>
      rw [writeCell_of_none named] at h
      cases h
  | some f =>
      rw [writeCell_of_some named] at h
      obtain ⟨_, -, rfl⟩ := mapError_eq_error_iff.1 h
      exact ⟨_, rfl⟩

/-- Whatever fails in a row is a scan error of one of its columns. -/
theorem error_of_writeCells {cells : List (String × Value)} {target : α} {e : Error}
    (h : cells.foldlM p.writeCell target = .error e) :
    ∃ column ∈ cells.map Prod.fst, ∃ message, e = .scan column message := by
  induction cells generalizing target with
  | nil => cases h
  | cons cell cells ih =>
      rw [List.foldlM_cons, bind_eq_error_iff] at h
      obtain first | ⟨next, -, rest⟩ := h
      · exact ⟨cell.1, List.mem_cons_self .., p.error_of_writeCell first⟩
      · obtain ⟨column, hc, cause⟩ := ih rest
        exact ⟨column, List.mem_cons_of_mem _ hc, cause⟩

/-- What goes wrong with a row is an error at one of its columns. -/
theorem error_of_scan [Inhabited α] {r : Row} {e : Error} (h : p.scan r = .error e) :
    ∃ column ∈ r.columns, ∃ message, e = .scan column message := by
  rw [scan_eq] at h
  exact r.map_fst_cells ▸ p.error_of_writeCells h

/-- Where all rows have the same columns, each is hydrated by its own. -/
theorem scanAll_eq [Inhabited α] {rows : List Row} {columns : List String}
    (same : ∀ r ∈ rows, r.columns = columns) : p.scanAll rows = rows.mapM p.scan := by
  cases rows with
  | nil => rfl
  | cons first rest =>
      have shared : ∀ r ∈ first :: rest,
          p.write r.values 0 (p.resolve first.columns) default = p.scan r := by
        intro r hr
        rw [scan, same r hr, same first (List.mem_cons_self ..)]
      exact mapM_congr shared

end Plan

/-- **Rows are hydrated by name.**  A row is hydrated column by column, for every list of fields;
and rows with one list of columns are hydrated one after the other: into a record for each, or, if
one fails, with the error of the first that does. -/
theorem scan_by_name {α : Type} [Inhabited α] (fields : List (Field α)) :
    (∀ r, (Plan.mk fields).scan r = (Plan.mk fields).hydrate r) ∧
      ∀ (rows : List Row) (columns : List String), (∀ r ∈ rows, r.columns = columns) →
        (∀ records, (Plan.mk fields).scanAll rows = .ok records ↔
          List.Forall₂ (fun r a => (Plan.mk fields).scan r = .ok a) rows records) ∧
        ∀ e, (Plan.mk fields).scanAll rows = .error e ↔
          ∃ before r after, rows = before ++ r :: after ∧
            (∀ x ∈ before, ∃ a, (Plan.mk fields).scan x = .ok a) ∧
            (Plan.mk fields).scan r = .error e := by
  refine ⟨fun r => Plan.scan_eq _ r, fun rows columns same => ?_⟩
  rw [Plan.scanAll_eq _ same]
  exact ⟨fun _ => mapM_eq_ok_iff, fun _ => mapM_eq_error_iff⟩

/-- Two fields for one column, of which the second one counts. -/
def twoForCity : List (Field (String × String)) :=
  [.leaf "city" fun pair (city : String) => (city, pair.2),
    .leaf "city" fun pair (city : String) => (pair.1, city)]

/-- A row with a column twice, and one with fewer values. -/
def raggedRows : List Row :=
  [⟨["city", "id", "city"], [.string "Oslo", .bool true, .string "Rome"]⟩,
    ⟨["city", "id", "city"], [.string "Bonn"]⟩]

theorem raggedRows_scan_by_name :
    (∀ r ∈ raggedRows, r.columns = ["city", "id", "city"]) ∧
      (Plan.mk twoForCity).scan raggedRows[0] = .ok ("", "Rome") ∧
      (Plan.mk twoForCity).scanAll raggedRows =
        .error (.scan "city" "Execution error: cannot convert null value into String") := by
  have same : ∀ r ∈ raggedRows, r.columns = ["city", "id", "city"] := by decide
  obtain ⟨byName, inOrder⟩ := scan_by_name twoForCity
  have first : (Plan.mk twoForCity).scan raggedRows[0] = .ok ("", "Rome") := byName _
  refine ⟨same, first, ((inOrder raggedRows _ same).2 _).2 ⟨[raggedRows[0]], _, [], rfl, ?_, rfl⟩⟩
  simp [first]

end PreparedSql
