import Mathlib.Data.List.Nodup
import PreparedSql.Proofs.NestedRecords

/-!
# Every field has a column of its own

The column of a field is its path joined by points.  Where no name in a path has a point, the path
can be read off the column again, so fields with paths of their own have columns of their own
(`Field.path_eq_of_column_eq`).  Then the index, in which a later field takes the column of an
earlier one, loses none: the place of each column is that of its field (`Plan.index_column`).

* `Plan.scan_eq_writes`: hydrating a row writes the fields that its columns name, one after the
  other.
* `Plan.writes_perm`: if each field is named once, these are all fields, each once.
* `fields_reached`: so it is for all lists of fields, leaves and fields of nested records, with
  paths of their own.
-/

namespace PreparedSql

namespace Field

/-! ### Paths and columns -/

/-- The field is a leaf, or a field of a nested record at any depth. -/
inductive Built : {α : Type} → Field α → Prop where
  | leaf {α β : Type} [ColumnType β] (name : String) (put : α → β → α) : Built (.leaf name put)
  | within {α β : Type} (name : String) (part : Part α β) {f : Field β} (h : Built f) :
      Built (.within name part f)

/-- No name in the path has a point. -/
def PointFree {α : Type} (f : Field α) : Prop := ∀ name ∈ f.path, '.' ∉ name.toList

instance {α : Type} : DecidablePred (@PointFree α) := fun f =>
  inferInstanceAs (Decidable (∀ name ∈ f.path, '.' ∉ name.toList))

variable {α : Type} {f g : Field α}

theorem Built.path_ne_nil (h : f.Built) : f.path ≠ [] := by
  cases h with
  | leaf name put => exact List.cons_ne_nil name []
  | within name part h => exact List.cons_ne_nil name _

theorem Built.nested {β : Type} {fields : List (Field β)} (h : ∀ f ∈ fields, f.Built)
    (name : String) (part : Part α β) : ∀ f ∈ Field.nested name part fields, f.Built :=
  List.forall_mem_map.2 fun f hf => .within name part (h f hf)

/-- The column is split into the path at its points. -/
theorem splitOn_column (named : f.path ≠ []) (pointFree : f.PointFree) :
    f.column.toList.splitOn '.' = f.path.map String.toList := by
  have joined : f.column.toList = ['.'].intercalate (f.path.map String.toList) :=
    String.toList_intercalate
  rw [joined]
  exact List.splitOn_intercalate '.' (List.forall_mem_map.2 pointFree) (by simpa using named)

/-- **The column tells the path.** -/
theorem path_eq_of_column_eq (hf : f.path ≠ []) (hg : g.path ≠ []) (pf : f.PointFree)
    (pg : g.PointFree) (h : f.column = g.column) : f.path = g.path := by
  have names : f.path.map String.toList = g.path.map String.toList := by
    rw [← splitOn_column hf pf, ← splitOn_column hg pg, h]
  exact List.map_injective_iff.2 (fun _ _ => String.toList_inj.1) names

end Field

namespace Plan

variable {α : Type} {p : Plan α}

/-! ### The places of the columns -/

/-- The place of a column is that of its field. -/
theorem index_column (distinct : (p.fields.map Field.column).Nodup) {i : Nat} {f : Field α}
    (hf : p.fields[i]? = some f) : p.index.get? f.column = some i := by
  have own := fieldOf?_column distinct (List.mem_of_getElem? hf)
  rw [← getElem?_index] at own
  obtain ⟨j, place, hj⟩ := Option.bind_eq_some_iff.1 own
  have same : (p.fields.map Field.column)[j]? = (p.fields.map Field.column)[i]? := by
    rw [List.getElem?_map, List.getElem?_map, hj, hf]
  have inside : j < (p.fields.map Field.column).length := by
    rw [List.length_map]
    exact (List.getElem?_eq_some_iff.1 hj).1
  rw [place, (List.getElem?_inj inside distinct).1 same]

theorem resolve_columns (distinct : (p.fields.map Field.column).Nodup) :
    p.resolve (p.fields.map Field.column) = (List.range p.fields.length).map some := by
  refine List.ext_getElem? fun i => ?_
  rw [resolve, List.getElem?_map, List.getElem?_map, List.getElem?_map]
  rcases Nat.lt_or_ge i p.fields.length with inside | outside
  · have hf : p.fields[i]? = some p.fields[i] := List.getElem?_eq_getElem inside
    rw [hf, List.getElem?_range inside]
    exact congrArg some (index_column distinct hf)
  · rw [List.getElem?_eq_none outside, List.getElem?_eq_none (by simpa using outside)]
    rfl

/-! ### What a row writes -/

/-- The fields that the columns of a row name, from left to right, with their values. -/
def writes (p : Plan α) (r : Row) : List (Field α × Value) :=
  r.cells.filterMap fun c => (p.fieldOf? c.1).map fun f => (f, c.2)

/-- The record with one field written. -/
def writeField (target : α) (w : Field α × Value) : Except Error α :=
  (w.1.write target w.2).mapError fun e => .scan w.1.column (Error.conversion e).message

theorem foldlM_writes (cells : List (String × Value)) : ∀ target : α,
    cells.foldlM p.writeCell target =
      (cells.filterMap fun c => (p.fieldOf? c.1).map fun f => (f, c.2)).foldlM writeField
        target := by
  induction cells with
  | nil => exact fun _ => rfl
  | cons cell cells ih =>
      intro target
      obtain ⟨column, v⟩ := cell
      rw [List.foldlM_cons, List.filterMap_cons]
      cases named : p.fieldOf? column with
      | none =>
          rw [writeCell_of_none named]
          exact ih target
      | some f =>
          obtain rfl := column_of_fieldOf? named
          rw [writeCell_of_some named, Option.map_some, List.foldlM_cons]
          exact congrArg _ (funext ih)

/-- **A row is hydrated** by writing the fields that it names. -/
theorem scan_eq_writes [Inhabited α] (p : Plan α) (r : Row) :
    p.scan r = (p.writes r).foldlM writeField default := by
  rw [scan_eq, hydrate, foldlM_writes, writes]

theorem map_fst_writes (p : Plan α) (r : Row) :
    (p.writes r).map Prod.fst = r.columns.filterMap p.fieldOf? := by
  rw [writes, List.map_filterMap, ← r.map_fst_cells, List.filterMap_map]
  refine List.filterMap_congr fun c _ => ?_
  rw [Option.map_map]
  exact Option.map_id'

theorem fieldOf?_of_notMem {column : String} (h : column ∉ p.fields.map Field.column) :
    p.fieldOf? column = none := by
  cases named : p.fieldOf? column with
  | none => rfl
  | some f =>
      exact absurd (List.mem_map.2 ⟨f, mem_of_fieldOf? named, column_of_fieldOf? named⟩) h

/-- The fields are those of their columns. -/
theorem filterMap_fieldOf? (distinct : (p.fields.map Field.column).Nodup) :
    (p.fields.map Field.column).filterMap p.fieldOf? = p.fields := by
  have own : ∀ f ∈ p.fields, (p.fieldOf? ∘ Field.column) f = some f := fun f hf =>
    fieldOf?_column distinct hf
  rw [List.filterMap_map, List.filterMap_congr own, List.filterMap_some]

/-- **All fields are written, each once**, if the row has the column of each once. -/
theorem writes_perm (distinct : (p.fields.map Field.column).Nodup) {r : Row}
    (once : ∀ f ∈ p.fields, r.columns.count f.column = 1) :
    ((p.writes r).map Prod.fst).Perm p.fields := by
  -- of the columns of the row, those of fields are in some order the columns of the fields
  have named : (r.columns.filter (· ∈ p.fields.map Field.column)).Perm
      (p.fields.map Field.column) := by
    refine List.perm_iff_count.2 fun c => ?_
    by_cases hc : c ∈ p.fields.map Field.column
    · rw [List.count_filter (by simpa using hc), List.count_eq_one_of_mem distinct hc]
      obtain ⟨f, hf, rfl⟩ := List.mem_map.1 hc
      exact once f hf
    · rw [List.count_eq_zero.2 hc]
      exact List.count_eq_zero.2 fun h => hc (by simpa using (List.mem_filter.1 h).2)
  have others : (r.columns.filter (· ∈ p.fields.map Field.column)).filterMap p.fieldOf? =
      r.columns.filterMap p.fieldOf? := by
    rw [List.filterMap_filter]
    refine List.filterMap_congr fun c _ => ?_
    by_cases hc : c ∈ p.fields.map Field.column
    · rw [if_pos (decide_eq_true hc)]
    · rw [if_neg (by simpa using hc), fieldOf?_of_notMem hc]
  rw [map_fst_writes, ← others]
  have moved := named.filterMap p.fieldOf?
  rwa [filterMap_fieldOf? distinct] at moved

end Plan

/-- **Every field is reached.**  Fields with paths of their own, of names without a point, have
columns of their own.  Each column is resolved to the place of its field; and a row with the column
of each once writes all of them, each once. -/
theorem fields_reached {α : Type} [Inhabited α] {fields : List (Field α)}
    (built : ∀ f ∈ fields, f.Built) (distinct : (fields.map Field.path).Nodup)
    (pointFree : ∀ f ∈ fields, f.PointFree) :
    (fields.map Field.column).Nodup ∧
      (Plan.mk fields).resolve (fields.map Field.column) =
        (List.range fields.length).map some ∧
      ∀ r : Row, (∀ f ∈ fields, r.columns.count f.column = 1) →
        (((Plan.mk fields).writes r).map Prod.fst).Perm fields ∧
          (Plan.mk fields).scan r =
            ((Plan.mk fields).writes r).foldlM Plan.writeField default := by
  have columns : (fields.map Field.column).Nodup := by
    rw [List.Nodup, List.pairwise_map] at distinct ⊢
    refine distinct.imp_of_mem fun hf hg other same => other ?_
    exact Field.path_eq_of_column_eq (built _ hf).path_ne_nil (built _ hg).path_ne_nil
      (pointFree _ hf) (pointFree _ hg) same
  refine ⟨columns, Plan.resolve_columns (p := ⟨fields⟩) columns, fun r once => ⟨?_, ?_⟩⟩
  · exact Plan.writes_perm (p := ⟨fields⟩) columns once
  · exact (Plan.mk fields).scan_eq_writes r

/-! ### The fields of an order -/

theorem built_address : ∀ f ∈ (Record.fields : List (Field Address)), f.Built :=
  List.forall_mem_cons.2 ⟨.leaf _ _, List.forall_mem_singleton.2 (.leaf _ _)⟩

theorem built_customer : ∀ f ∈ (Record.fields : List (Field Customer)), f.Built :=
  List.forall_mem_cons.2 ⟨.leaf _ _, .nested built_address _ _⟩

theorem built_order : ∀ f ∈ (Record.fields : List (Field Order)), f.Built :=
  List.forall_mem_append.2 ⟨.nested built_customer _ _, .nested built_address _ _⟩

/-- A row with the column of each field of an order, and twice one that no field has. -/
def fullRow : Row where
  columns := ["ship.zip", "id", "buyer.name", "ship.city", "buyer.address.city", "id",
    "buyer.address.zip"]
  values  := [.null, .bool true, .string "Ada", .string "Rome", .string "Oslo", .bool false,
    .string "0150"]

/-- Five fields, of which two are cities and two are zips. -/
theorem order_fields_reached :
    (Plan.build Order).resolve ["buyer.name", "buyer.address.city", "buyer.address.zip",
        "ship.city", "ship.zip"] = [some 0, some 1, some 2, some 3, some 4] ∧
      (((Plan.build Order).writes fullRow).map Prod.fst).Perm Record.fields ∧
      ((Plan.build Order).writes fullRow).foldlM Plan.writeField default =
        .ok ⟨⟨"Ada", ⟨"Oslo", some "0150"⟩⟩, ⟨"Rome", none⟩⟩ := by
  obtain ⟨-, places, rows⟩ := fields_reached built_order (by decide +kernel) (by decide +kernel)
  obtain ⟨all, scanned⟩ := rows fullRow (by decide +kernel)
  exact ⟨places, all, scanned.symm⟩

end PreparedSql
