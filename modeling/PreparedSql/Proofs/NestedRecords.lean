import Mathlib.Data.List.Find
import PreparedSql.Proofs.Hydration

/-!
# A nested record is hydrated like the record by itself

A record stands in another one under a name: its fields are reached through a part of the outer
record, and have the name in front of their columns (`Nests`).  A row with only such columns
hydrates the outer record as the row without the name hydrates the inner one: what comes out is the
outer record as it was, but for the part, and what goes wrong goes wrong at the same column.

A record in a record in a record stands under a list of names (`NestsAt`), so this carries over to
every depth.

* `Nests.fieldOf?_eq`: under the name, the outer record has the fields of the inner one.
* `Nests.writeCell_eq`: so it writes a column as the inner record does.
* `Nests.scan_under`: and so a whole row.
* `scan_nested`: the same for every depth.
-/

namespace PreparedSql

/-! ### Names in front of columns -/

/-- A column with names in front of it, a point behind each. -/
def qualified (names : List String) (column : String) : String :=
  names.foldr (fun name rest => name ++ "." ++ rest) column

/-- The column begins with the name and a point. -/
def StandsUnder (name column : String) : Prop := (name ++ ".").toList <+: column.toList

instance (name : String) : DecidablePred (StandsUnder name) := fun column =>
  inferInstanceAs (Decidable ((name ++ ".").toList <+: column.toList))

/-- The row with names in front of its columns. -/
def Row.under (names : List String) (r : Row) : Row :=
  { r with columns := r.columns.map (qualified names) }

/-- The error with names in front of its column. -/
def Error.under (names : List String) : Error → Error
  | .scan column message => .scan (qualified names column) message
  | e                    => e

/-- What comes out of the outer record, if this comes out of the inner one. -/
def outerResult {T U : Type} (names : List String) (put : U → T) :
    Except Error U → Except Error T
  | .ok u    => .ok (put u)
  | .error e => .error (e.under names)

theorem qualified_cons (name : String) (names : List String) (column : String) :
    qualified (name :: names) column = qualified [name] (qualified names column) := rfl

/-- Columns of one nested record keep apart what they kept apart without the name in front. -/
theorem qualified_inj {name c c' : String} : qualified [name] c = qualified [name] c' ↔ c = c' := by
  simp [qualified]

/-- A column with a name in front stands under that name. -/
theorem standsUnder_qualified (name column : String) :
    StandsUnder name (qualified [name] column) := by
  simp [StandsUnder, qualified]

/-- Names are put in front from the innermost to the outermost. -/
theorem Error.under_cons (name : String) (names : List String) (e : Error) :
    e.under (name :: names) = (e.under names).under [name] := by
  cases e <;> rfl

theorem Row.under_cons (name : String) (names : List String) (r : Row) :
    r.under (name :: names) = (r.under names).under [name] := by
  simp [under, Function.comp_def, ← qualified_cons]

/-- Each cell keeps its value, and its column gets the names in front. -/
theorem Row.cells_under (names : List String) (r : Row) :
    (r.under names).cells = r.cells.map fun c => (qualified names c.1, c.2) := by
  simp [cells, under, List.zipIdx_map, Function.comp_def]

/-! ### Records in records -/

/-- The column of a nested field is its own column with the name in front. -/
theorem Field.column_within {α β : Type} (name : String) (part : Part α β) {f : Field β}
    (h : f.path ≠ []) : (within name part f).column = qualified [name] f.column :=
  String.intercalate_cons_of_ne_nil h

/-- `U` stands in `T` under a name: the fields of `T` with the name and a point in front are those
of `U`, nested, and `T` has a `U` as it begins for a part. Every path of `U` has a name: that of a
leaf is one, and nesting puts another in front. -/
structure Nests (T U : Type) [Record T] [Record U] (name : String) (part : Part T U) : Prop where
  lawful      : part.Lawful
  get_default : part.get default = default
  path_ne_nil : ∀ f ∈ (Record.fields : List (Field U)), f.path ≠ []
  fields      : (Record.fields : List (Field T)).filter (fun f => StandsUnder name f.column) =
    Field.nested name part Record.fields

namespace Nests

variable {T U : Type} [Record T] [Record U] {name : String} {part : Part T U}

/-- The fields of `U`, nested, among others that do not stand under the name. -/
theorem of_append (before after : List (Field T)) (lawful : part.Lawful)
    (get_default : part.get default = default)
    (path_ne_nil : ∀ f ∈ (Record.fields : List (Field U)), f.path ≠ [])
    (fields : Record.fields = before ++ Field.nested name part Record.fields ++ after)
    (others : ∀ f ∈ before ++ after, ¬ StandsUnder name f.column) : Nests T U name part where
  lawful := lawful
  get_default := get_default
  path_ne_nil := path_ne_nil
  fields := by
    have inside : ∀ f ∈ Field.nested name part (Record.fields : List (Field U)),
        StandsUnder name f.column := by
      intro f hf
      obtain ⟨g, hg, rfl⟩ := List.mem_map.1 hf
      rw [Field.column_within name part (path_ne_nil g hg)]
      exact standsUnder_qualified name g.column
    have none : ∀ fs : List (Field T), (∀ f ∈ fs, f ∈ before ++ after) →
        fs.filter (fun f => StandsUnder name f.column) = [] := fun fs hfs =>
      List.filter_eq_nil_iff.2 fun f hf => by simpa using others f (hfs f hf)
    have all : (Field.nested name part Record.fields).filter
        (fun f => StandsUnder name f.column) = Field.nested name part Record.fields :=
      List.filter_eq_self.2 fun f hf => by simpa using inside f hf
    rw [fields, List.filter_append, List.filter_append, all,
      none before fun f => List.mem_append_left after,
      none after fun f => List.mem_append_right before, List.nil_append, List.append_nil]

/-- **Under the name** the fields are those of the inner record. -/
theorem fieldOf?_eq (h : Nests T U name part) (column : String) :
    (Plan.build T).fieldOf? (qualified [name] column) =
      ((Plan.build U).fieldOf? column).map (.within name part) := by
  have under : (Plan.build T).fieldOf? (qualified [name] column) =
      (Field.nested name part Record.fields).reverse.find?
        fun f => f.column = qualified [name] column := by
    rw [← h.fields, ← List.filter_reverse, List.find?_filter]
    -- a field with such a column stands under the name, so none is lost by the filter
    refine List.find?_congr fun f _ => ?_
    by_cases e : f.column = qualified [name] column
    · simp [e, standsUnder_qualified]
    · simp [e]
  rw [under, Field.nested, ← List.map_reverse, List.find?_map]
  refine congrArg _ (List.find?_congr fun f hf => ?_)
  have named := h.path_ne_nil f (List.mem_reverse.1 hf)
  simp only [Function.comp_apply, Field.column_within name part named, qualified_inj]

/-- **A column is written** as in the inner record. -/
theorem writeCell_eq (h : Nests T U name part) (t : T) (u : U) (column : String) (v : Value) :
    (Plan.build T).writeCell (part.put t u) (qualified [name] column, v) =
      outerResult [name] (part.put t) ((Plan.build U).writeCell u (column, v)) := by
  have outer := h.fieldOf?_eq column
  cases inner : (Plan.build U).fieldOf? column with
  | none =>
      rw [inner] at outer
      rw [Plan.writeCell_of_none outer, Plan.writeCell_of_none inner]
      rfl
  | some f =>
      rw [inner] at outer
      have write : (Field.within name part f).write (part.put t u) v =
          part.put t <$> f.write u v := by
        show part.put (part.put t u) <$> f.write (part.get (part.put t u)) v = _
        rw [h.lawful.get_put]
        cases f.write u v with
        | ok u' => exact congrArg Except.ok (h.lawful.put_put t u u')
        | error e => rfl
      rw [Plan.writeCell_of_some outer, Plan.writeCell_of_some inner, write]
      cases f.write u v <;> rfl

/-- **One level of nesting**: to write cells under the name is to write the cells without it into
the nested record, and to put that back. -/
theorem writeCells_eq (h : Nests T U name part) (t : T) (cells : List (String × Value)) :
    ∀ u : U, (cells.map fun c => (qualified [name] c.1, c.2)).foldlM (Plan.build T).writeCell
        (part.put t u) =
      outerResult [name] (part.put t) (cells.foldlM (Plan.build U).writeCell u) := by
  induction cells with
  | nil => exact fun _ => rfl
  | cons cell cells ih =>
      intro u
      rw [List.map_cons, List.foldlM_cons, List.foldlM_cons, h.writeCell_eq]
      cases (Plan.build U).writeCell u cell with
      | ok u' => exact ih u'
      | error e => rfl

theorem put_default (h : Nests T U name part) : part.put default default = default := by
  rw [← h.get_default, h.lawful.put_get]

/-- **A row is hydrated** as the inner record is by the row without the name. -/
theorem scan_under (h : Nests T U name part) (r : Row) :
    (Plan.build T).scan (r.under [name]) =
      outerResult [name] (part.put default) ((Plan.build U).scan r) := by
  rw [Plan.scan_eq, Plan.scan_eq, Plan.hydrate, Plan.hydrate, Row.cells_under,
    ← h.writeCells_eq, h.put_default]

end Nests

/-! ### At every depth -/

/-- A record is all of itself. -/
def Part.self {α : Type} : Part α α := ⟨id, fun _ a => a⟩

/-- `U` stands in `T` under a list of names, the outermost one first. -/
inductive NestsAt : (T U : Type) → [Record T] → [Record U] → List String → Part T U → Prop where
  | self {T : Type} [Record T] : NestsAt T T [] .self
  | inside {T V U : Type} [Record T] [Record V] [Record U] {name : String} {outer : Part T V}
      {names : List String} {inner : Part V U} (h : Nests T V name outer)
      (t : NestsAt V U names inner) : NestsAt T U (name :: names) (outer.comp inner)

namespace NestsAt

variable {T U : Type} [Record T] [Record U] {names : List String} {part : Part T U}

theorem lawful (h : NestsAt T U names part) : part.Lawful := by
  induction h with
  | self => exact ⟨fun _ _ => rfl, fun _ => rfl, fun _ _ _ => rfl⟩
  | inside h _ ih => exact h.lawful.comp ih

theorem put_default (h : NestsAt T U names part) : part.put default default = default := by
  induction h with
  | self => rfl
  | @inside _ _ _ _ _ _ _ outer _ inner h _ ih =>
      show outer.put default (inner.put (outer.get default) default) = default
      rw [h.get_default, ih, h.put_default]

/-- **Any depth of nesting**: the names in front go, and what is scanned or refused is the same. -/
theorem scan_under (h : NestsAt T U names part) (r : Row) :
    (Plan.build T).scan (r.under names) =
      outerResult names (part.put default) ((Plan.build U).scan r) := by
  induction h with
  | @self T _ =>
      have unnamed : qualified [] = id := rfl
      have same : r.under [] = r := by rw [Row.under, unnamed, List.map_id]
      rw [same]
      cases (Plan.build T).scan r with
      | ok u => rfl
      | error e => cases e <;> rfl
  | @inside T V U _ _ _ name outer names inner h _ ih =>
      rw [Row.under_cons, h.scan_under, ih]
      cases (Plan.build U).scan r with
      | ok u =>
          show Except.ok _ = Except.ok (outer.put default (inner.put (outer.get default) u))
          rw [h.get_default]
      | error e => exact congrArg Except.error (Error.under_cons name names e).symm

end NestsAt

/-- **A nested record is hydrated like the record by itself**, at every depth.  A row with the names
in front of its columns hydrates the outer record if the row without them hydrates the inner one.
It is then as it begins, but for the part, which is the inner record.  Otherwise both fail at the
same column with the same message. -/
theorem scan_nested {T U : Type} [Record T] [Record U] {names : List String} {part : Part T U}
    (h : NestsAt T U names part) (r : Row) :
    ((∃ t, (Plan.build T).scan (r.under names) = .ok t) ↔
        ∃ u, (Plan.build U).scan r = .ok u) ∧
      (∀ u, (Plan.build U).scan r = .ok u →
        (Plan.build T).scan (r.under names) = .ok (part.put default u) ∧
          part.get (part.put default u) = u ∧
          part.put (part.put default u) default = default) ∧
      ∀ e, (Plan.build U).scan r = .error e →
        ∃ column ∈ r.columns, ∃ message, e = .scan column message ∧
          (Plan.build T).scan (r.under names) =
            .error (.scan (qualified names column) message) := by
  rw [h.scan_under]
  cases inner : (Plan.build U).scan r with
  | ok u =>
      refine ⟨by simp [outerResult], ?_, by simp⟩
      rintro _ ⟨⟩
      refine ⟨rfl, h.lawful.get_put default u, ?_⟩
      rw [h.lawful.put_put, h.put_default]
  | error e =>
      refine ⟨by simp [outerResult], by simp, ?_⟩
      rintro _ ⟨⟩
      obtain ⟨column, hc, message, rfl⟩ := (Plan.build U).error_of_scan inner
      exact ⟨column, hc, message, rfl, rfl⟩

/-! ### An order with two addresses -/

structure Address where
  city : String
  zip  : Option String

structure Customer where
  name    : String
  address : Address

structure Order where
  buyer : Customer
  ship  : Address

def Customer.addressPart : Part Customer Address := ⟨address, fun c a => { c with address := a }⟩

def Order.buyerPart : Part Order Customer := ⟨buyer, fun o c => { o with buyer := c }⟩

def Order.shipPart : Part Order Address := ⟨ship, fun o a => { o with ship := a }⟩

instance : Record Address where
  default     := ⟨"", none⟩
  destination := ⟨"address"⟩
  fields      :=
    [.leaf "city" fun a (city : String) => { a with city },
      .leaf "zip" fun a (zip : Option String) => { a with zip }]

instance : Record Customer where
  default     := ⟨"", default⟩
  destination := ⟨"customer"⟩
  fields      :=
    .leaf "name" (fun c (name : String) => { c with name }) ::
      Field.nested "address" Customer.addressPart Record.fields

instance : Record Order where
  default     := ⟨default, default⟩
  destination := ⟨"order"⟩
  fields      :=
    Field.nested "buyer" Order.buyerPart Record.fields ++
      Field.nested "ship" Order.shipPart Record.fields

theorem nests_address : Nests Customer Address "address" Customer.addressPart := by
  refine .of_append [.leaf "name" fun c (name : String) => { c with name }] []
    ⟨fun _ _ => rfl, fun _ => rfl, fun _ _ _ => rfl⟩ rfl ?_ rfl ?_
  · simp [Record.fields, Field.leaf]
  · decide +kernel

theorem nests_buyer : Nests Order Customer "buyer" Order.buyerPart := by
  refine .of_append [] (Field.nested "ship" Order.shipPart Record.fields)
    ⟨fun _ _ => rfl, fun _ => rfl, fun _ _ _ => rfl⟩ rfl ?_ rfl ?_
  · simp [Record.fields, Field.leaf, Field.nested, Field.within]
  · decide +kernel

/-- The city of the buyer's address, which is not the one where the order is sent to. -/
theorem buyerAddress_scan_nested :
    (Plan.build Order).scan ⟨["buyer.address.zip", "buyer.address.city"],
        [.string "0150", .string "Oslo"]⟩ =
      .ok ⟨⟨"", ⟨"Oslo", some "0150"⟩⟩, ⟨"", none⟩⟩ := by
  have depth : NestsAt Order Address ["buyer", "address"] _ :=
    .inside nests_buyer (.inside nests_address .self)
  exact ((scan_nested depth ⟨["zip", "city"], [.string "0150", .string "Oslo"]⟩).2.1
    ⟨"Oslo", some "0150"⟩ rfl).1

end PreparedSql
