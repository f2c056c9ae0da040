import Mathlib.Data.List.Forall2
import PreparedSql.Proofs.Faults
import PreparedSql.Proofs.Scanning

/-!
# What the text of a statement tells

The text of a statement tells its parts.  A part is told apart from others in front of the text
that may follow it (`ReadsBack`), and so are parts one after the other, and lists of parts.

* `ReadsBack.append`, `ReadsBack.separated`, `ReadsBack.list`: how parts are put together.
* `readsBack_ofCell`: the text of a cell is told, and with it whether the cell is a slot, so that
  the cells after it have the same numbers.
* `parts_eq_of_sql_eq`: two statements with the same text have the same table, columns and
  RETURNING columns, and cells with the same text in the same places.
-/

namespace PreparedSql

/-! ### Drafts that can be read back -/

section ReadsBack

variable {α β : Type} {d : Dialect} {f g : α → Draft} {Ok : α → Prop}
  {Follow Last : List Char → Prop} {R S : α → α → Prop}

/-- In front of text that may follow, the text of a good member tells where it ends, how many
slots it has, and which member it is up to `R`. -/
structure ReadsBack (d : Dialect) (f : α → Draft) (Ok : α → Prop) (Follow : List Char → Prop)
    (R : α → α → Prop) : Prop where
  complete : ∀ {a}, Ok a → (f a).Complete
  cancel : ∀ {a b k x y}, Ok a → Ok b → Follow x → Follow y →
    (f a).chars d k ++ x = (f b).chars d k ++ y →
      R a b ∧ (f a).slots.length = (f b).slots.length ∧ x = y

namespace ReadsBack

/-- A fixed text tells nothing. -/
theorem text (s : String) :
    ReadsBack d (fun _ : α => .text s) Ok (fun _ => True) fun _ _ => True where
  complete _ := Draft.complete_text s
  cancel _ _ _ _ h := ⟨trivial, rfl, by simpa using h⟩

/-- A part of each member. -/
theorem comap (h : ReadsBack d f Ok Follow R) (p : β → α) :
    ReadsBack d (fun b => f (p b)) (fun b => Ok (p b)) Follow fun a b => R (p a) (p b) where
  complete := h.complete
  cancel := h.cancel

theorem mono {Ok' : α → Prop} {Follow' : List Char → Prop} {R' : α → α → Prop}
    (h : ReadsBack d f Ok Follow R) (hOk : ∀ {a}, Ok' a → Ok a)
    (hFollow : ∀ {x}, Follow' x → Follow x) (hR : ∀ {a b}, R a b → R' a b) :
    ReadsBack d f Ok' Follow' R' where
  complete ha := h.complete (hOk ha)
  cancel ha hb hx hy e := (h.cancel (hOk ha) (hOk hb) (hFollow hx) (hFollow hy) e).imp_left hR

/-- Two members in front of other drafts: they are told, and if what is behind them is told too,
so is the whole. -/
theorem cancel_append (h : ReadsBack d f Ok Follow R) {a b : α} {u v : Draft} {k : Nat}
    {x y : List Char} {P : Prop} (ha : Ok a) (hb : Ok b) (hu : ∀ k, Follow (u.chars d k ++ x))
    (hv : ∀ k, Follow (v.chars d k ++ y))
    (rest : ∀ {k}, u.chars d k ++ x = v.chars d k ++ y →
      P ∧ u.slots.length = v.slots.length ∧ x = y)
    (e : (f a ++ u).chars d k ++ x = (f b ++ v).chars d k ++ y) :
    (R a b ∧ P) ∧ (f a ++ u).slots.length = (f b ++ v).slots.length ∧ x = y := by
  rw [Draft.chars_append (h.complete ha), Draft.chars_append (h.complete hb),
    List.append_assoc, List.append_assoc] at e
  obtain ⟨hR, hslots, e⟩ := h.cancel ha hb (hu _) (hv _) e
  -- the members have as many slots, so what is behind them is numbered alike
  rw [hslots] at e
  obtain ⟨hP, hslots', e⟩ := rest e
  refine ⟨⟨hR, hP⟩, ?_, e⟩
  rw [Draft.slots_append (h.complete ha), Draft.slots_append (h.complete hb),
    List.length_append, List.length_append, hslots, hslots']

/-- **One part after the other**: the first is told in front of the second. -/
theorem append (hf : ReadsBack d f Ok Follow R) (hg : ReadsBack d g Ok Last S)
    (follow : ∀ {a k x}, Ok a → Last x → Follow ((g a).chars d k ++ x)) :
    ReadsBack d (fun a => f a ++ g a) Ok Last fun a b => R a b ∧ S a b where
  complete ha := Draft.complete_append_iff.2 ⟨hf.complete ha, hg.complete ha⟩
  cancel ha hb hx hy e :=
    hf.cancel_append ha hb (fun _ => follow ha hx) (fun _ => follow hb hy)
      (fun e => hg.cancel ha hb hx hy e) e

/-- One member or more, all of them good. -/
def AtLeastOne (Ok : α → Prop) (as : List α) : Prop := as ≠ [] ∧ ∀ a ∈ as, Ok a

theorem complete_map (h : ReadsBack d f Ok Follow R) {as : List α} (ha : ∀ a ∈ as, Ok a) :
    ∀ x ∈ as.map f, x.Complete :=
  List.forall_mem_map.2 fun a hm => h.complete (ha a hm)

/-- After a member there is a comma, or what follows the list. -/
theorem follow_others (comma : ∀ x, Follow (',' :: x)) {x : List Char} (hx : Follow x)
    {as : List α} {k : Nat} :
    Follow ((Draft.others (as.map f)).chars d k ++ x) := by
  cases as with
  | nil => exact hx
  | cons a as =>
      rw [List.map_cons, Draft.chars_others_cons]
      exact comma _

/-- Members with a comma in front of each.  The comma tells that there is another. -/
theorem others (h : ReadsBack d f Ok Follow R) (comma : ∀ x, Follow (',' :: x)) :
    ReadsBack d (fun as => Draft.others (as.map f)) (fun as => ∀ a ∈ as, Ok a)
      (fun x => Follow x ∧ x.head? ≠ some ',') (List.Forall₂ R) where
  complete ha := (Draft.complete_others_iff _).2 (h.complete_map ha)
  cancel {as bs k x y} ha hb hx hy e := by
    induction as generalizing bs k with
    | nil =>
        cases bs with
        | nil => exact ⟨.nil, rfl, e⟩
        | cons b bs =>
            rw [List.map_cons, Draft.chars_others_cons] at e
            exact absurd (congrArg List.head? e) hx.2
    | cons a as ih =>
        cases bs with
        | nil =>
            rw [List.map_cons, Draft.chars_others_cons] at e
            exact absurd (congrArg List.head? e).symm hy.2
        | cons b bs =>
            obtain ⟨ha₁, ha₂⟩ := List.forall_mem_cons.1 ha
            obtain ⟨hb₁, hb₂⟩ := List.forall_mem_cons.1 hb
            simp only [List.map_cons, Draft.chars_others_cons, List.cons_append,
              List.cons.injEq, true_and] at e
            obtain ⟨⟨hR, hRs⟩, hslots, e⟩ :=
              h.cancel_append ha₁ hb₁ (fun _ => follow_others comma hx.1)
                (fun _ => follow_others comma hy.1) (fun e => ih ha₂ hb₂ e) e
            exact ⟨.cons hR hRs, hslots, e⟩

/-- **Members with commas between them**, at least one. -/
theorem separated (h : ReadsBack d f Ok Follow R) (comma : ∀ x, Follow (',' :: x)) :
    ReadsBack d (fun as => Draft.separated ", " (as.map f)) (AtLeastOne Ok)
      (fun x => Follow x ∧ x.head? ≠ some ',') (List.Forall₂ R) where
  complete ha := (Draft.complete_separated_iff _).2 (h.complete_map ha.2)
  cancel {as bs k x y} ha hb hx hy e := by
    obtain ⟨a, as, rfl⟩ := List.exists_cons_of_ne_nil ha.1
    obtain ⟨b, bs, rfl⟩ := List.exists_cons_of_ne_nil hb.1
    obtain ⟨ha₁, ha₂⟩ := List.forall_mem_cons.1 ha.2
    obtain ⟨hb₁, hb₂⟩ := List.forall_mem_cons.1 hb.2
    simp only [List.map_cons, Draft.separated_cons] at e ⊢
    obtain ⟨⟨hR, hRs⟩, hslots, e⟩ :=
      h.cancel_append ha₁ hb₁ (fun _ => follow_others comma hx.1)
        (fun _ => follow_others comma hy.1) (fun e => (h.others comma).cancel ha₂ hb₂ hx hy e) e
    exact ⟨.cons hR hRs, hslots, e⟩

/-- **A list in parentheses**, whatever follows it. -/
theorem list (h : ReadsBack d f Ok Follow R) (comma : ∀ x, Follow (',' :: x))
    (close : ∀ x, Follow (')' :: x)) :
    ReadsBack d (fun as => Draft.list (as.map f)) (AtLeastOne Ok) (fun _ => True)
      (List.Forall₂ R) := by
  have closed : ReadsBack d (fun as => Draft.separated ", " (as.map f) ++ .text ")") (AtLeastOne Ok)
      (fun _ => True) fun as bs => List.Forall₂ R as bs ∧ True :=
    (h.separated comma).append (text ")") fun _ _ => by simpa using close _
  exact ((text "(").append closed fun _ _ => trivial).mono id id fun hR => hR.2.1

end ReadsBack

end ReadsBack

/-! ### Names and tables -/

/-- The name does not have the quote of the dialect in it. -/
def QuoteFree (d : Dialect) (name : String) : Prop := d.quote ∉ name.toList

instance (d : Dialect) : DecidablePred (QuoteFree d) := fun name =>
  inferInstanceAs (Decidable (d.quote ∉ name.toList))

/-- What stands in front of the first quote of two texts, and what stands behind it. -/
theorem append_cons_inj_of_notMem_left {α : Type} {q : α} {a b x y : List α} (ha : q ∉ a)
    (hb : q ∉ b) (h : a ++ q :: x = b ++ q :: y) : a = b ∧ x = y := by
  rcases List.append_eq_append_iff.1 h with ⟨more, rfl, e⟩ | ⟨more, rfl, e⟩
  · cases more with
    | nil => simpa using e
    | cons c more => cases e; simp at hb
  · cases more with
    | nil => simpa using e.symm
    | cons c more => cases e; simp at ha

theorem quoteIdentifier_append_inj {d : Dialect} {m n : String} {x y : List Char}
    (hm : QuoteFree d m) (hn : QuoteFree d n)
    (h : (d.quoteIdentifier m).toList ++ x = (d.quoteIdentifier n).toList ++ y) :
    m = n ∧ x = y := by
  simp only [Dialect.quoteIdentifier, String.toList_ofList, List.cons_append, List.append_assoc,
    List.nil_append, List.cons.injEq, true_and] at h
  obtain ⟨e, hxy⟩ := append_cons_inj_of_notMem_left hm hn h
  exact ⟨String.toList_inj.1 e, hxy⟩

theorem readsBack_ofColumn {d : Dialect} :
    ReadsBack d (Draft.ofColumn d) (QuoteFree d) (fun _ => True) Eq where
  complete _ := Draft.complete_ofColumn d _
  cancel ha hb _ _ e := by
    simp only [Draft.ofColumn, Draft.chars_text] at e
    obtain ⟨rfl, hxy⟩ := quoteIdentifier_append_inj ha hb e
    exact ⟨rfl, rfl, hxy⟩

structure Table.NamesQuoteFree (d : Dialect) (t : Table) : Prop where
  schema : ∀ name, t.schema = some name → QuoteFree d name
  name   : QuoteFree d t.name

/-- A table is told in front of a blank: after the name of its schema there is a point. -/
theorem readsBack_ofTable {d : Dialect} :
    ReadsBack d (Draft.ofTable d) (Table.NamesQuoteFree d) (fun x => x.head? = some ' ') Eq where
  complete _ := Draft.complete_ofTable d _
  cancel {t u k x y} ht hu hx hy e := by
    obtain ⟨schema, name⟩ := t
    obtain ⟨schema', name'⟩ := u
    rw [Draft.slots_ofTable, Draft.slots_ofTable]
    cases schema <;> cases schema' <;>
      simp only [Draft.ofTable, Draft.chars_text_append, Draft.chars_text, List.append_assoc] at e
    case none.none =>
      obtain ⟨rfl, hxy⟩ := quoteIdentifier_append_inj ht.name hu.name e
      exact ⟨rfl, rfl, hxy⟩
    -- behind the first name stands a blank or a point
    case none.some schema' =>
      obtain ⟨-, rfl⟩ := quoteIdentifier_append_inj ht.name (hu.schema _ rfl) e
      cases hx
    case some.none schema =>
      obtain ⟨-, rfl⟩ := quoteIdentifier_append_inj (ht.schema _ rfl) hu.name e
      cases hy
    case some.some schema schema' =>
      obtain ⟨rfl, e'⟩ := quoteIdentifier_append_inj (ht.schema _ rfl) (hu.schema _ rfl) e
      obtain ⟨rfl, hxy⟩ := quoteIdentifier_append_inj ht.name hu.name (List.append_cancel_left e')
      exact ⟨rfl, rfl, hxy⟩

/-- The RETURNING list at the end of the text. -/
theorem readsBack_ofReturning {d : Dialect} :
    ReadsBack d (Draft.ofReturning d) (fun columns => ∀ x ∈ columns, QuoteFree d x)
      (fun x => x = []) Eq where
  complete _ := Draft.complete_ofReturning d _
  cancel {as bs k x y} ha hb hx hy e := by
    subst hx hy
    have columns : ReadsBack d (fun cs => Draft.separated ", " (cs.map (Draft.ofColumn d)))
        (ReadsBack.AtLeastOne (QuoteFree d)) (fun x => x = []) (List.Forall₂ Eq) :=
      (readsBack_ofColumn.separated fun _ => trivial).mono id (by simp) id
    cases as with
    | nil =>
        cases bs with
        | nil => exact ⟨rfl, rfl, rfl⟩
        | cons b bs => simp [Draft.ofReturning, Draft.chars_text_append] at e
    | cons a as =>
        cases bs with
        | nil => simp [Draft.ofReturning, Draft.chars_text_append] at e
        | cons b bs =>
            obtain ⟨⟨-, hR⟩, hslots, -⟩ :=
              ((ReadsBack.text " RETURNING ").append columns fun _ _ => trivial).cancel
                ⟨by simp, ha⟩ ⟨by simp, hb⟩ rfl rfl e
            rw [List.forall₂_eq_eq_eq] at hR
            exact ⟨hR, hslots, rfl⟩

/-! ### Cells and rows -/

/-- The text begins like the placeholder of a slot. -/
def BeginsSlot (cs : List Char) : Prop := ∃ c ∈ cs.head?, c = '$' ∨ c = '?'

theorem beginsSlot_placeholder (d : Dialect) (position : Nat) :
    BeginsSlot (d.placeholder position).toList := by
  cases d
  · exact ⟨'$', by simp [Dialect.placeholder], .inl rfl⟩
  · exact ⟨'?', by simp [Dialect.placeholder], .inr rfl⟩
  · exact ⟨'?', by simp [Dialect.placeholder], .inr rfl⟩

theorem IsLiteralText.not_beginsSlot {cs : List Char} (h : IsLiteralText cs) :
    ¬ BeginsSlot cs := by
  obtain ⟨bare, hbare, shape⟩ := h
  rintro ⟨c, hc, slot⟩
  have first : c ∈ bare ∨ c = '\'' := by
    cases bare with
    | nil =>
        rcases shape with rfl | ⟨inside, rfl⟩
        · cases hc
        · exact .inr (by simpa [singleQuoted] using hc.symm)
    | cons b bare =>
        have : b = c := by
          rcases shape with rfl | ⟨inside, rfl⟩ <;> simpa using hc
        exact .inl (by simp [this])
  rcases first with hm | rfl
  · rcases slot with rfl | rfl <;> exact absurd (hbare _ hm) (by decide)
  · exact absurd slot (by decide)

namespace Draft

variable {d : Dialect}

theorem slots_ofValue {v : Value} (h : (ofValue d v).Complete) : (ofValue d v).slots = [] := by
  rw [ofValue_of_complete h]
  rfl

theorem slots_ofArray {vs : List Value} (h : (ofArray d vs).Complete) :
    (ofArray d vs).slots = [] := by
  obtain ⟨e, complete⟩ := ofArray_of_complete h
  rw [e, slots_list (by simpa using complete)]
  simpa [List.flatMap_eq_nil_iff] using fun v hv => slots_ofValue (complete v hv)

/-- **Only a slot is written like a slot**: any other cell has no slots, and its text begins
otherwise. -/
theorem slot_or_not_beginsSlot {cell : Cell} (h : (ofCell d cell).Complete) :
    (∃ s, cell = .slot s) ∨
      (ofCell d cell).slots = [] ∧ ∀ k, ¬ BeginsSlot ((ofCell d cell).chars d k) := by
  cases cell with
  | slot s => exact .inl ⟨s, rfl⟩
  | literal v =>
      refine .inr ⟨slots_ofValue h, fun k => ?_⟩
      show ¬ BeginsSlot ((ofValue d v).chars d k)
      rw [ofValue_of_complete h, chars_text, Dialect.literal, Value.literal, String.toList_ofList]
      exact (v.isLiteralText_literalChars d.escaping).not_beginsSlot
  | array vs =>
      obtain ⟨e, complete⟩ := ofArray_of_complete h
      refine .inr ⟨slots_ofArray h, fun k => ?_⟩
      show ¬ BeginsSlot ((ofArray d vs).chars d k)
      rw [e, chars_list (by simpa using complete)]
      simp [BeginsSlot]
  | column name =>
      refine .inr ⟨rfl, fun k => ?_⟩
      cases d <;> simp [ofCell, ofColumn, Dialect.quoteIdentifier, Dialect.quote, BeginsSlot]

end Draft

/-- Cells that are written as the same text wherever they are written. -/
def Cell.SameText (d : Dialect) (a b : Cell) : Prop :=
  ∀ (schema : Schema) (r : Rendering),
    (r.accept ⟨d, schema⟩ a.node).2.sql = (r.accept ⟨d, schema⟩ b.node).2.sql

theorem Draft.ofNode_node (c : Context) (cell : Cell) :
    ofNode c cell.node = ofCell c.dialect cell := by
  cases cell <;> rfl

theorem Cell.sameText_of_chars_eq {d : Dialect} {a b : Cell}
    (h : ∀ k, (Draft.ofCell d a).chars d k = (Draft.ofCell d b).chars d k) : a.SameText d b := by
  intro schema r
  have same := h r.slots.length
  unfold Draft.chars at same
  simp only [Rendering.accept, Draft.ofNode_node, Rendering.writeTokens_eq, same]

/-- A cell that can be written, with no quote in its name. -/
structure Cell.Readable (d : Dialect) (cell : Cell) : Prop where
  complete  : (Draft.ofCell d cell).Complete
  quoteFree : ∀ name, cell = .column name → QuoteFree d name

/-- **The text of a cell** tells where the cell ends, and whether it is a slot. -/
theorem readsBack_ofCell {d : Dialect} :
    ReadsBack d (Draft.ofCell d) (Cell.Readable d) Stops (Cell.SameText d) where
  complete h := h.complete
  cancel {a b k x y} ha hb hx hy e := by
    obtain ⟨same, hxy⟩ := (Draft.balanced_ofCell ha.complete ha.quoteFree k).append_inj
      (Draft.balanced_ofCell hb.complete hb.quoteFree k) hx hy e
    have slotText : ∀ s, BeginsSlot ((Draft.ofCell d (.slot s)).chars d k) := fun s => by
      simpa [Draft.ofCell] using beginsSlot_placeholder d (k + 1)
    rcases Draft.slot_or_not_beginsSlot ha.complete with ⟨s, rfl⟩ | ⟨sa, na⟩ <;>
      rcases Draft.slot_or_not_beginsSlot hb.complete with ⟨t, rfl⟩ | ⟨sb, nb⟩
    · exact ⟨Cell.sameText_of_chars_eq fun k => by simp [Draft.ofCell], rfl, hxy⟩
    · exact absurd (same ▸ slotText s) (nb k)
    · exact absurd (same ▸ slotText t) (na k)
    -- neither has slots, so what is the same text here is the same everywhere
    · refine ⟨Cell.sameText_of_chars_eq fun k' => ?_, by rw [sa, sb], hxy⟩
      calc (Draft.ofCell d a).chars d k'
          = (Draft.ofCell d a).chars d k := by
            rw [Draft.chars_of_slots_eq_nil sa, Draft.chars_of_slots_eq_nil sa d k]
        _ = (Draft.ofCell d b).chars d k := same
        _ = (Draft.ofCell d b).chars d k' := by
            rw [Draft.chars_of_slots_eq_nil sb, Draft.chars_of_slots_eq_nil sb d k']

theorem readsBack_row {d : Dialect} :
    ReadsBack d (fun row => Draft.list (row.map (Draft.ofCell d)))
      (ReadsBack.AtLeastOne (Cell.Readable d)) (fun _ => True) (List.Forall₂ (Cell.SameText d)) :=
  readsBack_ofCell.list (fun _ => ⟨',', rfl, .inl rfl⟩) fun _ => ⟨')', rfl, .inr rfl⟩

/-! ### Statements -/

/-- A statement that can be written, with no quote in any name. -/
structure Insert.Readable (d : Dialect) (s : Insert) : Prop where
  table     : s.table.NamesQuoteFree d
  columns   : ReadsBack.AtLeastOne (QuoteFree d) s.columns
  rows      : ReadsBack.AtLeastOne (ReadsBack.AtLeastOne (Cell.Readable d)) s.rows
  returning : ∀ x ∈ s.returning, QuoteFree d x

section Parts

variable {d : Dialect}

theorem readsBack_table : ReadsBack d (fun s : Insert => Draft.ofTable d s.table)
    (Insert.Readable d) (fun x => x.head? = some ' ') fun s t => s.table = t.table :=
  (readsBack_ofTable.comap Insert.table).mono Insert.Readable.table id id

theorem readsBack_columns :
    ReadsBack d (fun s : Insert => Draft.list (s.columns.map (Draft.ofColumn d)))
      (Insert.Readable d) (fun _ => True) fun s t => s.columns = t.columns :=
  ((readsBack_ofColumn.list (fun _ => trivial) fun _ => trivial).comap Insert.columns).mono
    Insert.Readable.columns id fun h => by rwa [List.forall₂_eq_eq_eq] at h

theorem readsBack_rows :
    ReadsBack d
      (fun s : Insert =>
        Draft.separated ", " (s.rows.map fun row => Draft.list (row.map (Draft.ofCell d))))
      (Insert.Readable d) (fun x => x.head? ≠ some ',')
      fun s t => List.Forall₂ (List.Forall₂ (Cell.SameText d)) s.rows t.rows :=
  ((readsBack_row.separated fun _ => trivial).comap Insert.rows).mono Insert.Readable.rows
    (fun h => ⟨trivial, h⟩) id

theorem readsBack_returning : ReadsBack d (fun s : Insert => Draft.ofReturning d s.returning)
    (Insert.Readable d) (fun x => x = []) fun s t => s.returning = t.returning :=
  (readsBack_ofReturning.comap Insert.returning).mono Insert.Readable.returning id id

/-- **The text of a statement** tells its parts.  The parts are put together from the last one to
the first, each in front of what follows it. -/
theorem readsBack_insertBody :
    ReadsBack d (Draft.insertBody d) (Insert.Readable d) (fun x => x = []) fun s t =>
      s.table = t.table ∧ s.columns = t.columns ∧ s.returning = t.returning ∧
        List.Forall₂ (List.Forall₂ (Cell.SameText d)) s.rows t.rows := by
  have fromRows := readsBack_rows.append (readsBack_returning (d := d)) fun {s k x} _ hx => by
    rw [Draft.ofReturning]
    split <;> simp [hx, Draft.chars_text_append]
  have fromValues := (ReadsBack.text " VALUES ").append fromRows fun _ _ => trivial
  have fromColumns := readsBack_columns.append fromValues fun _ _ => trivial
  have fromBlank := (ReadsBack.text " ").append fromColumns fun _ _ => trivial
  have fromTable := readsBack_table.append fromBlank fun _ _ => by
    simp [Draft.chars_text_append]
  have whole := (ReadsBack.text "INSERT INTO ").append fromTable fun _ _ => trivial
  refine whole.mono id id fun h => ?_
  obtain ⟨-, table, -, columns, -, rows, returning⟩ := h
  exact ⟨table, columns, returning, rows⟩

end Parts

/-! ### Rendered statements -/

/-- No name in the statement has the quote of the dialect in it. -/
structure Insert.NamesQuoteFree (d : Dialect) (s : Insert) : Prop where
  table     : s.table.NamesQuoteFree d
  columns   : ∀ x ∈ s.columns, QuoteFree d x
  returning : ∀ x ∈ s.returning, QuoteFree d x
  cells     : ∀ row ∈ s.rows, ∀ x, .column x ∈ row → QuoteFree d x

/-- What is rendered can be written. -/
theorem Insert.readable_of_render {c : Context} {s : Insert} {r : Rendering}
    (h : (Node.insert s).render c = .ok r) (names : s.NamesQuoteFree c.dialect) :
    s.Readable c.dialect ∧ r.sql.toList = (Draft.insertBody c.dialect s).chars c.dialect 0 := by
  obtain ⟨fault, cells, sql, -⟩ := Node.render_insert_eq_ok_iff.1 h
  have proper := (Insert.fault?_eq_none_iff.1 fault).1
  have columns : s.columns ≠ [] := proper.columns_ne_nil
  have filled : ∀ row ∈ s.rows, row ≠ [] := by
    rintro row hrow rfl
    exact columns (List.length_eq_zero_iff.1 (proper.width _ hrow).symm)
  refine ⟨⟨names.table, ⟨columns, names.columns⟩,
    ⟨proper.rows_ne_nil, fun row hm => ⟨filled row hm, fun cell hcell => ?_⟩⟩,
    names.returning⟩, sql⟩
  exact ⟨cells row hm cell hcell, fun x e => names.cells row hm x (e ▸ hcell)⟩

/-- **The text of a statement is not ambiguous.**  Two statements with no quote of the dialect in
any name, rendered to the same text with any schemas, have the same table, columns and RETURNING
columns, as many rows, and in the same places cells with the same text. -/
theorem parts_eq_of_sql_eq (d : Dialect) (σ τ : Schema) (s t : Insert) (r q : Rendering)
    (hs : s.NamesQuoteFree d) (ht : t.NamesQuoteFree d)
    (hr : (Node.insert s).render ⟨d, σ⟩ = .ok r) (hq : (Node.insert t).render ⟨d, τ⟩ = .ok q)
    (h : r.sql = q.sql) :
    s.table = t.table ∧ s.columns = t.columns ∧ s.returning = t.returning ∧
      List.Forall₂ (List.Forall₂ (Cell.SameText d)) s.rows t.rows := by
  obtain ⟨readable, sql⟩ := Insert.readable_of_render hr hs
  obtain ⟨readable', sql'⟩ := Insert.readable_of_render hq ht
  have chars : (Draft.insertBody d s).chars d 0 ++ [] = (Draft.insertBody d t).chars d 0 ++ [] := by
    rw [← sql, ← sql', h]
  exact (readsBack_insertBody.cancel readable readable' rfl rfl chars).1

/-- A row with a slot and with text that has everything in it that ends a row. -/
def textRow : Insert :=
  ⟨⟨some "s", "t"⟩, ["id", "x"], [[.slot (.positional 1), .literal (.string "\"'), (\"")]], []⟩

/-- Another slot, and the same text as a JSON value. -/
def jsonRow : Insert :=
  { textRow with rows := [[.slot (.named "id"), .literal (.json (.string "'), ("))]] }

theorem namesQuoteFree_textRow : textRow.NamesQuoteFree .postgres where
  table     := ⟨fun _ h => by cases h; decide, by decide⟩
  columns   := by decide
  returning := by decide
  cells     := by simp [textRow]

theorem namesQuoteFree_jsonRow : jsonRow.NamesQuoteFree .postgres where
  table     := namesQuoteFree_textRow.table
  columns   := namesQuoteFree_textRow.columns
  returning := namesQuoteFree_textRow.returning
  cells     := by simp [jsonRow, textRow]

/-- What both are written as. -/
def rowText : String := "INSERT INTO \"s\".\"t\" (\"id\", \"x\") VALUES ($1, '\"''), (\"')"

theorem textRow_jsonRow_parts_eq :
    (Node.insert textRow).render {} = .ok ⟨rowText, [.positional 1]⟩ ∧
      (Node.insert jsonRow).render {} = .ok ⟨rowText, [.named "id"]⟩ ∧
      List.Forall₂ (List.Forall₂ (Cell.SameText .postgres)) textRow.rows jsonRow.rows :=
  ⟨rfl, rfl, (parts_eq_of_sql_eq .postgres {} {} textRow jsonRow _ _ namesQuoteFree_textRow
    namesQuoteFree_jsonRow rfl rfl rfl).2.2.2⟩

end PreparedSql
