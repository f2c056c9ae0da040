import Mathlib.Data.List.Pairwise
import PreparedSql.Proofs.NestedRecords

/-!
# The order of the columns

A row is hydrated from left to right, and what is written last stays.  If every column is written
into a part of its own, nothing is written twice: a row with its columns in another order hydrates
the same record, or fails as well.

The fields of a plan write apart (`Plan.WritesApart`) if it does not matter which of two is written
first, and if none of them looks at the record to decide whether it takes a value.  This is so for
leaves that put into parts of their own, and it carries over to the fields of nested records.

* `Field.commutes_of_apart`: fields that write in parts apart from each other commute.
* `Plan.WritesApart.nested`, `Plan.WritesApart.append`: the fields of a record in a record, and two
  groups of fields in parts apart.
* `Plan.writeCells_perm`: columns with names of their own may be written in any order.
* `scan_perm`: so the order of the columns of a row does not matter.
-/

namespace PreparedSql

/-! ### Parts apart from each other -/

/-- What is put into one part is not seen in the other, and it does not matter which one is put
first. -/
structure Part.Apart {α β γ : Type} (p : Part α β) (q : Part α γ) : Prop where
  put_comm : ∀ a b c, q.put (p.put a b) c = p.put (q.put a c) b
  get_put  : ∀ a b, q.get (p.put a b) = q.get a
  get_put' : ∀ a c, p.get (q.put a c) = p.get a

namespace Field

variable {α β γ : Type}

/-! ### What a field looks at -/

/-- Whether the field takes a value does not depend on the record it is written to. -/
def Steady (f : Field α) : Prop :=
  ∀ t t' v, (∃ a, f.write t v = .ok a) → ∃ a, f.write t' v = .ok a

/-- Where both orders of writing two values to two fields succeed, they give the same record. -/
def Commutes (f g : Field α) : Prop :=
  ∀ t v w a b a' b', f.write t v = .ok a → g.write a w = .ok b →
    g.write t w = .ok a' → f.write a' v = .ok b' → b = b'

instance : Std.Symm (@Commutes α) where
  symm _ _ h t v w _ _ _ _ fv gw gw' fv' := (h t w v _ _ _ _ gw' fv' fv gw).symm

/-- The field reads and writes a part of the record and nothing else. -/
def WritesIn (f : Field α) (part : Part α β) : Prop :=
  ∃ write : β → Value → Except ConversionError β,
    ∀ t v, f.write t v = part.put t <$> write (part.get t) v

theorem steady_leaf [ColumnType β] (name : String) (put : α → β → α) :
    (leaf name put).Steady := by
  rintro t t' v ⟨a, written⟩
  obtain ⟨b, loaded, -⟩ := map_eq_ok_iff.1 written
  exact ⟨put t' b, map_eq_ok_iff.2 ⟨b, loaded, rfl⟩⟩

theorem writesIn_leaf [ColumnType β] (name : String) (part : Part α β) :
    (leaf name part.put).WritesIn part := ⟨fun _ v => ColumnType.load v, fun _ _ => rfl⟩

theorem writesIn_nested (name : String) (part : Part α β) (fields : List (Field β)) :
    ∀ f ∈ nested name part fields, f.WritesIn part :=
  List.forall_mem_map.2 fun f _ => ⟨f.write, fun _ _ => rfl⟩

theorem Steady.within {f : Field β} (h : f.Steady) (name : String) (part : Part α β) :
    (within name part f).Steady := by
  rintro t t' v ⟨a, written⟩
  obtain ⟨b, inner, -⟩ := map_eq_ok_iff.1 written
  obtain ⟨b', inner'⟩ := h (part.get t) (part.get t') v ⟨b, inner⟩
  exact ⟨part.put t' b', map_eq_ok_iff.2 ⟨b', inner', rfl⟩⟩

/-- Fields of a nested record commute as they do in the record by itself. -/
theorem Commutes.within {f g : Field β} (h : f.Commutes g) {part : Part α β}
    (lawful : part.Lawful) (name : String) :
    (within name part f).Commutes (within name part g) := by
  intro t v w a b a' b' fv gw gw' fv'
  obtain ⟨x, wrote, rfl⟩ := map_eq_ok_iff.1 fv
  obtain ⟨y, wrote₂, rfl⟩ := map_eq_ok_iff.1 gw
  obtain ⟨y', wrote', rfl⟩ := map_eq_ok_iff.1 gw'
  obtain ⟨x', wrote₂', rfl⟩ := map_eq_ok_iff.1 fv'
  rw [lawful.get_put] at wrote₂ wrote₂'
  rw [lawful.put_put, lawful.put_put, h _ _ _ _ _ _ _ wrote wrote₂ wrote' wrote₂']

/-- **Fields that write in parts apart** from each other commute. -/
theorem commutes_of_apart {f g : Field α} {p : Part α β} {q : Part α γ} (hf : f.WritesIn p)
    (hg : g.WritesIn q) (apart : p.Apart q) : f.Commutes g := by
  obtain ⟨writeF, hf⟩ := hf
  obtain ⟨writeG, hg⟩ := hg
  intro t v w a b a' b' fv gw gw' fv'
  rw [hf] at fv fv'
  rw [hg] at gw gw'
  obtain ⟨x, wrote, rfl⟩ := map_eq_ok_iff.1 fv
  obtain ⟨y, wrote₂, rfl⟩ := map_eq_ok_iff.1 gw
  obtain ⟨y', wrote', rfl⟩ := map_eq_ok_iff.1 gw'
  obtain ⟨x', wrote₂', rfl⟩ := map_eq_ok_iff.1 fv'
  -- neither sees what the other one put, so each puts the same in both orders
  rw [apart.get_put, wrote'] at wrote₂
  rw [apart.get_put', wrote] at wrote₂'
  obtain rfl := Except.ok.inj wrote₂
  obtain rfl := Except.ok.inj wrote₂'
  exact apart.put_comm t x y'

end Field

/-! ### Plans whose fields write apart -/

namespace Plan

variable {α β γ : Type}

/-- Fields at different places commute, and none looks at the record to decide whether it takes a
value. -/
structure WritesApart (p : Plan α) : Prop where
  steady  : ∀ f ∈ p.fields, f.Steady
  commute : p.fields.Pairwise Field.Commutes

namespace WritesApart

/-- The fields of a nested record. -/
theorem nested {fields : List (Field β)} (h : (Plan.mk fields).WritesApart) {part : Part α β}
    (lawful : part.Lawful) (name : String) :
    (Plan.mk (Field.nested name part fields)).WritesApart where
  steady := by
    intro f hf
    obtain ⟨g, hg, rfl⟩ := List.mem_map.1 hf
    exact (h.steady g hg).within name part
  commute := h.commute.map _ fun _ _ fg => fg.within lawful name

/-- The fields in one part and those in another one, apart from it. -/
theorem append {fs gs : List (Field α)} (hf : (Plan.mk fs).WritesApart)
    (hg : (Plan.mk gs).WritesApart) {p : Part α β} {q : Part α γ} (apart : p.Apart q)
    (inFirst : ∀ f ∈ fs, f.WritesIn p) (inSecond : ∀ g ∈ gs, g.WritesIn q) :
    (Plan.mk (fs ++ gs)).WritesApart where
  steady := List.forall_mem_append.2 ⟨hf.steady, hg.steady⟩
  commute := List.pairwise_append.2 ⟨hf.commute, hg.commute, fun f hf g hg =>
    Field.commutes_of_apart (inFirst f hf) (inSecond g hg) apart⟩

/-- One leaf. -/
theorem leaf [ColumnType β] (name : String) (put : α → β → α) :
    (Plan.mk [Field.leaf name put]).WritesApart where
  steady := by simpa using Field.steady_leaf name put
  commute := List.pairwise_singleton _ _

end WritesApart

/-! ### Columns in another order -/

section

variable {p : Plan α} (apart : p.WritesApart)
include apart

/-- Two columns with different names may be written in either order. -/
theorem writeCell_swap {c d : String × Value} (ne : c.1 ≠ d.1) {t a b : α}
    (first : p.writeCell t c = .ok a) (second : p.writeCell a d = .ok b) :
    ∃ a', p.writeCell t d = .ok a' ∧ p.writeCell a' c = .ok b := by
  obtain ⟨column, v⟩ := c
  obtain ⟨column', w⟩ := d
  cases named : p.fieldOf? column with
  | none =>
      rw [writeCell_of_none named] at first
      obtain rfl := Except.ok.inj first
      exact ⟨b, second, writeCell_of_none named⟩
  | some f =>
      cases named' : p.fieldOf? column' with
      | none =>
          rw [writeCell_of_none named'] at second
          obtain rfl := Except.ok.inj second
          exact ⟨t, writeCell_of_none named', first⟩
      | some g =>
          have hf := mem_of_fieldOf? named
          have hg := mem_of_fieldOf? named'
          have other : f ≠ g := by
            rintro rfl
            exact ne ((column_of_fieldOf? named).symm.trans (column_of_fieldOf? named'))
          have fv := write_of_writeCell named first
          have gw := write_of_writeCell named' second
          -- each takes its value in the other order as well
          obtain ⟨a', gw'⟩ := apart.steady g hg a t w ⟨b, gw⟩
          obtain ⟨b', fv'⟩ := apart.steady f hf t a' v ⟨a, fv⟩
          obtain rfl : b = b' := apart.commute.forall hf hg other _ _ _ _ _ _ _ fv gw gw' fv'
          refine ⟨a', ?_, ?_⟩
          · rw [writeCell_of_some named', mapError_eq_ok_iff, gw']
          · rw [writeCell_of_some named, mapError_eq_ok_iff, fv']

/-- **Columns with names of their own** may be written in any order. -/
theorem writeCells_perm {cells cells' : List (String × Value)} (moved : cells.Perm cells')
    (distinct : (cells.map Prod.fst).Nodup) {t a : α}
    (written : cells.foldlM p.writeCell t = .ok a) : cells'.foldlM p.writeCell t = .ok a := by
  -- by how one order comes from the other: fields have to commute where neighbours are swapped
  induction moved generalizing t with
  | nil => exact written
  | cons cell _ ih =>
      rw [List.foldlM_cons, bind_eq_ok_iff] at written ⊢
      obtain ⟨next, first, rest⟩ := written
      exact ⟨next, first, ih (List.nodup_cons.1 distinct).2 rest⟩
  | swap c d rest =>
      simp only [List.foldlM_cons, bind_eq_ok_iff] at written ⊢
      obtain ⟨t₁, first, t₂, second, rest⟩ := written
      have ne : d.1 ≠ c.1 := by
        simp only [List.map_cons, List.nodup_cons, List.mem_cons, not_or] at distinct
        exact distinct.1.1
      obtain ⟨t₁', first', second'⟩ := writeCell_swap apart ne first second
      exact ⟨t₁', first', t₂, second', rest⟩
  | trans h _ ih ih' => exact ih' ((h.map Prod.fst).nodup_iff.1 distinct) (ih distinct written)

end

end Plan

/-- The columns of a row with a value for each are the pairs of the two lists. -/
theorem Row.cells_eq_zip {r : Row} (full : r.columns.length = r.values.length) :
    r.cells = r.columns.zip r.values := by
  refine List.ext_getElem? fun i => ?_
  rw [getElem?_cells, List.zip, List.getElem?_zipWith]
  rcases Nat.lt_or_ge i r.columns.length with inside | outside
  · rw [List.getElem?_eq_getElem inside, List.getElem?_eq_getElem (full ▸ inside)]
    rfl
  · rw [List.getElem?_eq_none outside]
    rfl

/-- **The order of the columns does not matter.**  Where fields write apart, a row with a name and
a value for each column and the same row with its columns in another order hydrate the same record,
or both fail. -/
theorem scan_perm {α : Type} [Inhabited α] {p : Plan α} (apart : p.WritesApart) {r r' : Row}
    (distinct : r.columns.Nodup) (full : r.columns.length = r.values.length)
    (full' : r'.columns.length = r'.values.length)
    (moved : (r.columns.zip r.values).Perm (r'.columns.zip r'.values)) :
    (∃ a, p.scan r = .ok a ∧ p.scan r' = .ok a) ∨
      (∃ e, p.scan r = .error e) ∧ ∃ e, p.scan r' = .error e := by
  rw [← Row.cells_eq_zip full, ← Row.cells_eq_zip full'] at moved
  have names : (r.cells.map Prod.fst).Nodup := r.map_fst_cells ▸ distinct
  have names' : (r'.cells.map Prod.fst).Nodup := (moved.map Prod.fst).nodup_iff.1 names
  rw [Plan.scan_eq, Plan.scan_eq, Plan.hydrate, Plan.hydrate]
  cases one : r.cells.foldlM p.writeCell default with
  | ok a => exact .inl ⟨a, rfl, Plan.writeCells_perm apart moved names one⟩
  | error e =>
      cases other : r'.cells.foldlM p.writeCell default with
      | ok a =>
          have back := Plan.writeCells_perm apart moved.symm names' other
          rw [one] at back
          cases back
      | error e' => exact .inr ⟨⟨e, rfl⟩, e', rfl⟩

/-! ### An order with two addresses, from the back -/

def Address.cityPart : Part Address String := ⟨city, fun a c => { a with city := c }⟩

def Address.zipPart : Part Address (Option String) := ⟨zip, fun a z => { a with zip := z }⟩

def Customer.namePart : Part Customer String := ⟨name, fun c n => { c with name := n }⟩

theorem writesApart_address : (Plan.build Address).WritesApart := by
  have apart : Address.cityPart.Apart Address.zipPart :=
    ⟨fun _ _ _ => rfl, fun _ _ => rfl, fun _ _ => rfl⟩
  refine .append (.leaf "city" Address.cityPart.put) (.leaf "zip" Address.zipPart.put) apart ?_ ?_
  · exact List.forall_mem_singleton.2 (Field.writesIn_leaf "city" Address.cityPart)
  · exact List.forall_mem_singleton.2 (Field.writesIn_leaf "zip" Address.zipPart)

theorem writesApart_customer : (Plan.build Customer).WritesApart := by
  have apart : Customer.namePart.Apart Customer.addressPart :=
    ⟨fun _ _ _ => rfl, fun _ _ => rfl, fun _ _ => rfl⟩
  refine .append (.leaf "name" Customer.namePart.put)
    (writesApart_address.nested nests_address.lawful "address") apart ?_ ?_
  · exact List.forall_mem_singleton.2 (Field.writesIn_leaf "name" Customer.namePart)
  · exact Field.writesIn_nested "address" Customer.addressPart _

theorem writesApart_order : (Plan.build Order).WritesApart := by
  have apart : Order.buyerPart.Apart Order.shipPart :=
    ⟨fun _ _ _ => rfl, fun _ _ => rfl, fun _ _ => rfl⟩
  have lawful : Order.shipPart.Lawful := ⟨fun _ _ => rfl, fun _ => rfl, fun _ _ _ => rfl⟩
  refine .append (writesApart_customer.nested nests_buyer.lawful "buyer")
    (writesApart_address.nested lawful "ship") apart ?_ ?_
  · exact Field.writesIn_nested "buyer" Order.buyerPart _
  · exact Field.writesIn_nested "ship" Order.shipPart _

/-- A row for both addresses of an order, with a column that no field has. -/
def orderRow : Row :=
  ⟨["ship.city", "buyer.address.city", "id", "buyer.name"],
    [.string "Rome", .string "Oslo", .bool true, .string "Ada"]⟩

def orderRow.reversed : Row := ⟨orderRow.columns.reverse, orderRow.values.reverse⟩

theorem orderRow_scan_perm :
    orderRow.columns.Nodup ∧
      (orderRow.columns.zip orderRow.values).Perm
        (orderRow.reversed.columns.zip orderRow.reversed.values) ∧
      (Plan.build Order).scan orderRow.reversed =
        .ok ⟨⟨"Ada", ⟨"Oslo", none⟩⟩, ⟨"Rome", none⟩⟩ := by
  have distinct : orderRow.columns.Nodup := by decide
  have moved : (orderRow.columns.zip orderRow.values).Perm
      (orderRow.reversed.columns.zip orderRow.reversed.values) := (List.reverse_perm _).symm
  refine ⟨distinct, moved, ?_⟩
  obtain ⟨a, here, there⟩ | ⟨⟨e, failed⟩, -⟩ :=
    scan_perm writesApart_order distinct rfl rfl moved
  · rw [there, ← here]
    rfl
  · cases failed

end PreparedSql
