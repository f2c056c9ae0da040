import PreparedSql.Proofs.Hydration

/-!
# Columns that a row has more than once

A row of a join may have several columns with one name.  Looked up by that name it gives the value
of the first one (`Row.get?`).  Hydrating writes one after the other into the same field, so what
is left is the value of the last one.

* `Plan.get_of_writeCells`: columns with other names leave the part of a field as it was.
* `scan_holds_last`: a field holds the value of the last column with its name, converted.  If there
  is only one, that is what looking the name up gives.
* `not_holdsLookedUp`: if there are more it may be another value.
-/

namespace PreparedSql

/-! ### What a field does to the parts of a record -/

namespace Field

variable {α β γ : Type}

/-- The field puts its value, converted, into a part. -/
def Sets [ColumnType β] (f : Field α) (part : Part α β) : Prop :=
  ∀ target v, f.write target v = part.put target <$> ColumnType.load v

/-- The field leaves a part as it was. -/
def Leaves (f : Field α) (part : Part α β) : Prop :=
  ∀ target v target', f.write target v = .ok target' → part.get target' = part.get target

theorem sets_leaf [ColumnType β] (name : String) (part : Part α β) :
    (leaf name part.put).Sets part := fun _ _ => rfl

/-- A field of a nested record sets a part of the part that the record is. -/
theorem Sets.within [ColumnType γ] {f : Field β} {inner : Part β γ} (h : f.Sets inner)
    (name : String) (outer : Part α β) : (within name outer f).Sets (outer.comp inner) := by
  intro target v
  show outer.put target <$> f.write (outer.get target) v = _
  rw [h]
  cases (ColumnType.load v : Except ConversionError γ) <;> rfl

section

variable [ColumnType β] {f : Field α} {part : Part α β} {target target' : α} {v : Value}

/-- What is written was converted and put. -/
theorem Sets.eq_put (h : f.Sets part) (written : f.write target v = .ok target') :
    ∃ b, ColumnType.load v = .ok b ∧ target' = part.put target b := by
  rw [h] at written
  cases loaded : (ColumnType.load v : Except ConversionError β) with
  | ok b =>
      rw [loaded] at written
      exact ⟨b, rfl, (Except.ok.inj written).symm⟩
  | error e =>
      rw [loaded] at written
      cases written

/-- A part that is apart from the one that is set stays. -/
theorem Sets.leaves (h : f.Sets part) {other : Part α γ}
    (apart : ∀ a b, other.get (part.put a b) = other.get a) : f.Leaves other := by
  intro target v target' written
  obtain ⟨b, -, rfl⟩ := h.eq_put written
  exact apart target b

end

end Field

/-! ### The last column -/

/-- What occurs occurs a last time. -/
theorem eq_append_cons_of_mem_last {α : Type} {a : α} {as : List α} (h : a ∈ as) :
    ∃ before after, as = before ++ a :: after ∧ a ∉ after := by
  obtain ⟨after, before, e, last⟩ := List.eq_append_cons_of_mem (List.mem_reverse.2 h)
  refine ⟨before.reverse, after.reverse, ?_, by simpa using last⟩
  rw [← List.reverse_reverse as, e]
  simp

theorem Row.get?_of_notMem {r : Row} {before after : List String} {column : String}
    (columns : r.columns = before ++ column :: after) (first : column ∉ before) :
    r.get? column = r.values[before.length]? := by
  have place : r.columns.findIdx? (· = column) = some before.length := by
    rw [columns, List.findIdx?_append]
    have none : before.findIdx? (· = column) = none := by
      rw [List.findIdx?_eq_none_iff]
      rintro c hc
      simpa using fun e : c = column => first (e ▸ hc)
    simp [none, List.findIdx?_cons]
  rw [get?, place, Option.bind_some]

/-- A column in a row is a cell, with the cells of the columns before it and behind it. -/
theorem Row.cells_of_columns {r : Row} {before after : List String} {column : String}
    (columns : r.columns = before ++ column :: after) {v : Value}
    (value : r.values[before.length]? = some v) :
    ∃ cells cells', r.cells = cells ++ (column, v) :: cells' ∧ cells'.map Prod.fst = after := by
  have names := r.map_fst_cells.trans columns
  obtain ⟨cells, rest, split, rfl, tail⟩ := List.map_eq_append_iff.1 names
  obtain ⟨cell, cells', rfl, name, rfl⟩ := List.map_eq_cons_iff.1 tail
  have place : r.cells[cells.length]? = some cell := by
    rw [split, List.getElem?_append_right (Nat.le_refl _), Nat.sub_self, List.getElem?_cons_zero]
  rw [getElem?_cells, ← List.length_map Prod.fst, value] at place
  obtain ⟨_, -, rfl⟩ := Option.map_eq_some_iff.1 place
  obtain rfl : _ = column := name
  exact ⟨cells, cells', split, rfl⟩

namespace Plan

variable {α β : Type} {p : Plan α}

/-- A column writes a part only through its own field. -/
theorem get_of_writeCell {part : Part α β} {cell : String × Value}
    (apart : ∀ g ∈ p.fields, g.column = cell.1 → g.Leaves part) {target target' : α}
    (written : p.writeCell target cell = .ok target') : part.get target' = part.get target := by
  cases named : p.fieldOf? cell.1 with
  | none =>
      rw [writeCell_of_none named] at written
      rw [Except.ok.inj written]
  | some g =>
      exact apart g (mem_of_fieldOf? named) (column_of_fieldOf? named) _ _ _
        (write_of_writeCell named written)

/-- **Columns with other names** leave the part of a field as it was. -/
theorem get_of_writeCells {part : Part α β} {cells : List (String × Value)}
    (apart : ∀ g ∈ p.fields, g.column ∈ cells.map Prod.fst → g.Leaves part) {target target' : α}
    (written : cells.foldlM p.writeCell target = .ok target') :
    part.get target' = part.get target := by
  induction cells generalizing target with
  | nil => rw [Except.ok.inj written]
  | cons cell cells ih =>
      rw [List.foldlM_cons, bind_eq_ok_iff] at written
      obtain ⟨next, first, rest⟩ := written
      have tail : part.get target' = part.get next :=
        ih (fun g hg hc => apart g hg (List.mem_cons_of_mem _ hc)) rest
      have head : part.get next = part.get target :=
        get_of_writeCell (fun g hg hc => apart g hg (hc ▸ List.mem_cons_self ..)) first
      rw [tail, head]

end Plan

/-- **A field holds the value of the last column with its name**, converted.  The fields have
columns of their own, and no other one touches the part that this one sets.  If the row has the
column once, the value is the one that looking it up gives. -/
theorem scan_holds_last {α β : Type} [Inhabited α] [ColumnType β] {p : Plan α}
    (distinct : (p.fields.map Field.column).Nodup) {r : Row}
    (full : r.columns.length = r.values.length) {a : α} (scanned : p.scan r = .ok a)
    {f : Field α} (hf : f ∈ p.fields) {part : Part α β} (sets : f.Sets part)
    (holds : ∀ a b, part.get (part.put a b) = b)
    (apart : ∀ g ∈ p.fields, g.column ≠ f.column → g.Leaves part) (occurs : f.column ∈ r.columns) :
    ∃ before after v, r.columns = before ++ f.column :: after ∧ f.column ∉ after ∧
      r.values[before.length]? = some v ∧ ColumnType.load v = .ok (part.get a) ∧
      (f.column ∉ before → r.get? f.column = some v) := by
  obtain ⟨before, after, columns, last⟩ := eq_append_cons_of_mem_last occurs
  have inside : before.length < r.values.length := by
    rw [← full, columns, List.length_append, List.length_cons]
    omega
  have value : r.values[before.length]? = some r.values[before.length] :=
    List.getElem?_eq_getElem inside
  refine ⟨before, after, _, columns, last, value, ?_, fun first => ?_⟩
  · -- the last write of the part is the one of this column
    obtain ⟨cells, cells', split, rfl⟩ := Row.cells_of_columns columns value
    rw [Plan.scan_eq, Plan.hydrate, split, List.foldlM_append, bind_eq_ok_iff] at scanned
    obtain ⟨a₁, -, scanned⟩ := scanned
    rw [List.foldlM_cons, bind_eq_ok_iff] at scanned
    obtain ⟨a₂, written, rest⟩ := scanned
    obtain ⟨b, loaded, rfl⟩ :=
      sets.eq_put (Plan.write_of_writeCell (Plan.fieldOf?_column distinct hf) written)
    have kept : part.get a = part.get (part.put a₁ b) :=
      Plan.get_of_writeCells (fun g hg hc => apart g hg fun e => last (e ▸ hc)) rest
    rw [kept, holds, loaded]
  · rw [Row.get?_of_notMem columns first, value]

/-! ### A person and where they live -/

/-- The left of two. -/
def Part.left {α β : Type} : Part (α × β) α := ⟨Prod.fst, fun pair a => (a, pair.2)⟩

/-- The right of two. -/
def Part.right {α β : Type} : Part (α × β) β := ⟨Prod.snd, fun pair b => (pair.1, b)⟩

def nameField : Field (String × String × String) := .leaf "name" Part.left.put

/-- The fields of an address, which is the right of a person. -/
def cityField : Field (String × String × String) :=
  .within "address" .right (.leaf "city" Part.left.put)

def streetField : Field (String × String × String) :=
  .within "address" .right (.leaf "street" Part.right.put)

theorem sets_cityField : cityField.Sets (Part.right.comp Part.left) :=
  (Field.sets_leaf "city" Part.left).within "address" .right

/-- The other fields leave the city as it is. -/
theorem leaves_city {g : Field (String × String × String)}
    (hg : g ∈ [nameField, cityField, streetField]) (other : g.column ≠ cityField.column) :
    g.Leaves (Part.right.comp (Part.left (α := String) (β := String))) := by
  simp only [List.mem_cons, List.not_mem_nil, or_false] at hg
  rcases hg with rfl | rfl | rfl
  · exact (Field.sets_leaf "name" Part.left).leaves fun _ _ => rfl
  · exact absurd rfl other
  · exact ((Field.sets_leaf "street" Part.right).within "address" .right).leaves fun _ _ => rfl

/-- A join has the city of both its sides. -/
def joinedRow : Row :=
  ⟨["name", "address.city", "id", "address.city"],
    [.string "Ada", .string "Oslo", .bool true, .string "Rome"]⟩

theorem distinct_person :
    ([nameField, cityField, streetField].map Field.column).Nodup := by
  decide +kernel

theorem scan_joinedRow :
    (Plan.mk [nameField, cityField, streetField]).scan joinedRow = .ok ("Ada", "Rome", "") := rfl

/-- The city at the end is the one that the record holds. -/
theorem joinedRow_holds_last :
    (Plan.mk [nameField, cityField, streetField]).scan joinedRow = .ok ("Ada", "Rome", "") ∧
      ∃ before after v, joinedRow.columns = before ++ cityField.column :: after ∧
        cityField.column ∉ after ∧ joinedRow.values[before.length]? = some v ∧
        ColumnType.load v = .ok "Rome" ∧
        (cityField.column ∉ before → joinedRow.get? cityField.column = some v) := by
  refine ⟨scan_joinedRow, ?_⟩
  have city : cityField ∈ [nameField, cityField, streetField] := by simp
  exact scan_holds_last distinct_person rfl scan_joinedRow city sets_cityField (fun _ _ => rfl)
    (fun _ => leaves_city) (by decide +kernel)

/-- **A field holds the value that its column gives** when it is looked up, converted. It does not
hold (`not_holdsLookedUp`). -/
def HoldsLookedUp : Prop :=
  ∀ {α β : Type} [Inhabited α] [ColumnType β] (p : Plan α) (r : Row) (a : α) (f : Field α)
    (part : Part α β), (p.fields.map Field.column).Nodup → r.columns.length = r.values.length →
    p.scan r = .ok a → f ∈ p.fields → f.Sets part → part.Lawful →
    (∀ g ∈ p.fields, g.column ≠ f.column → g.Leaves part) → f.column ∈ r.columns →
    ∃ v, r.get? f.column = some v ∧ ColumnType.load v = .ok (part.get a)

/-- The city of the left side of a join is looked up, and the one of the right side is held. -/
theorem not_holdsLookedUp : ¬ HoldsLookedUp := by
  intro h
  obtain ⟨v, found, loaded⟩ := h _ joinedRow _ cityField _ distinct_person rfl scan_joinedRow
    (by simp) sets_cityField ⟨fun _ _ => rfl, fun _ => rfl, fun _ _ _ => rfl⟩
    (fun _ => leaves_city) (by decide +kernel)
  have first : joinedRow.get? cityField.column = some (.string "Oslo") := rfl
  rw [first] at found
  obtain rfl := Option.some.inj found
  have same : "Oslo" = "Rome" := Except.ok.inj loaded
  exact absurd same (by decide)

end PreparedSql
