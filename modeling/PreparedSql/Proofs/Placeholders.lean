import PreparedSql.Bindings
import PreparedSql.Proofs.Boundaries
import PreparedSql.Proofs.Reading

/-!
# Placeholders and slots

The bind slots that a server finds in a statement's text are those of its parameter cells, numbered
row by row, each in the place of its cell; and the values that a call gives them are in that order.

* `Insert.parameters`: the parameter cells of a statement, with their places.
* `ReadsMembers.reads_separated`, `ReadsMembers.reads_list`: members with commas between them are
  read one after the other, each where it stands and with the numbers behind those before it.
* `reads_insertBody`: the marks of a statement are its parameters.
* `Bindings.exists_resolve_iff`, `Bindings.gives_of_resolve`, `Bindings.resolve_of_unbound`: what a
  call's values are, and which slot is named where one is missing.
* `placeholders_in_order`: all this of a statement that is rendered.
-/

namespace PreparedSql

/-! ### Parameter cells -/

/-- A cell that each call gives a value, with its row and its column, counted from 0. -/
structure Parameter where
  row  : Nat
  col  : Nat
  slot : Slot

/-- The cell at a place, if it is a parameter. -/
def cellParameter (row col : Nat) : Cell → List Parameter
  | .slot s => [⟨row, col, s⟩]
  | .literal _ | .array _ | .column _ => []

/-- What each member has at its index, the first one at index `j`, in order. -/
def foundFrom {α : Type} (found : Nat → α → List Parameter) (j : Nat) (as : List α) :
    List Parameter :=
  (as.zipIdx j).flatMap fun e => found e.2 e.1

/-- The parameters of a row, from left to right. -/
def rowParameters (row : Nat) (cells : List Cell) : List Parameter :=
  foundFrom (cellParameter row) 0 cells

/-- The parameters of a statement, row by row. -/
def Insert.parameters (s : Insert) : List Parameter := foundFrom rowParameters 0 s.rows

theorem foundFrom_cons {α : Type} (found : Nat → α → List Parameter) (j : Nat) (a : α)
    (as : List α) : foundFrom found j (a :: as) = found j a ++ foundFrom found (j + 1) as := by
  rw [foundFrom, List.zipIdx_cons, List.flatMap_cons]
  rfl

/-- Parameters as marks, `k` others before them. The first list in parentheses is that of the
columns, and each row is one. -/
def parameterMarks (d : Dialect) (k : Nat) (ps : List Parameter) : List Mark :=
  (ps.zipIdx k).map fun e => ⟨⟨e.1.row + 2, e.1.col, 1⟩, (d.placeholder (e.2 + 1)).toList⟩

theorem parameterMarks_append (d : Dialect) (k : Nat) (ps qs : List Parameter) :
    parameterMarks d k (ps ++ qs) =
      parameterMarks d k ps ++ parameterMarks d (k + ps.length) qs := by
  simp [parameterMarks, List.zipIdx_append]

/-! ### Members with commas between them -/

section Members

variable {α : Type} {d : Dialect} {f : α → Draft} {Ok : α → Prop} {Follow : List Char → Prop}
  {found : Nat → α → List Parameter} {start stop : Nat → Place}

/-- Good members have the parameters that are found at their index, and each is read from the place
where it starts to the place where it stops; a comma leads from there to the next. -/
structure ReadsMembers (d : Dialect) (f : α → Draft) (Ok : α → Prop) (Follow : List Char → Prop)
    (found : Nat → α → List Parameter) (start stop : Nat → Place) : Prop where
  complete : ∀ {a}, Ok a → (f a).Complete
  slots    : ∀ {a} j, Ok a → (f a).slots = (found j a).map Parameter.slot
  reads    : ∀ {a} j k, Ok a →
    Reads d Follow (start j) ((f a).chars d k) (parameterMarks d k (found j a)) (stop j)
  comma    : ∀ j, Reads d (fun _ => True) (stop j) [',', ' '] [] (start (j + 1))
  follow   : ∀ x, Follow (',' :: x)

namespace ReadsMembers

variable (h : ReadsMembers d f Ok Follow found start stop)
include h

theorem complete_map {as : List α} (ha : ∀ a ∈ as, Ok a) : ∀ x ∈ as.map f, x.Complete :=
  List.forall_mem_map.2 fun a hm => h.complete (ha a hm)

theorem slots_flatMap {as : List α} (ha : ∀ a ∈ as, Ok a) (j : Nat) :
    (as.map f).flatMap Draft.slots = (foundFrom found j as).map Parameter.slot := by
  induction as generalizing j with
  | nil => rfl
  | cons a as ih =>
      obtain ⟨hfirst, hrest⟩ := List.forall_mem_cons.1 ha
      rw [foundFrom_cons, List.map_append, List.map_cons, List.flatMap_cons, h.slots j hfirst,
        ih hrest]

/-- One member and those behind it. -/
theorem reads_append {a : α} (ha : Ok a) {u : Draft} {j k : Nat} {ps : List Parameter} {p : Place}
    (hu : ∀ x, Follow x → Follow (u.chars d (k + (f a).slots.length) ++ x))
    (rest : Reads d Follow (stop j) (u.chars d (k + (f a).slots.length))
      (parameterMarks d (k + (f a).slots.length) ps) p) :
    Reads d Follow (start j) ((f a ++ u).chars d k) (parameterMarks d k (found j a ++ ps)) p := by
  have length : (f a).slots.length = (found j a).length := by rw [h.slots j ha, List.length_map]
  rw [Draft.chars_append (h.complete ha), parameterMarks_append, ← length]
  exact (h.reads j k ha).append rest hu

theorem reads_others {as : List α} (ha : ∀ a ∈ as, Ok a) (j k : Nat) :
    Reads d Follow (stop j) ((Draft.others (as.map f)).chars d k)
      (parameterMarks d k (foundFrom found (j + 1) as)) (stop (j + as.length)) := by
  -- on the members; the numbers and the places go on from one to the next
  induction as generalizing j k with
  | nil => exact .nil
  | cons a as ih =>
      obtain ⟨hfirst, hrest⟩ := List.forall_mem_cons.1 ha
      have rest := ih hrest (j + 1) (k + (f a).slots.length)
      rw [Nat.add_right_comm j 1 as.length] at rest
      rw [List.map_cons, Draft.chars_others_cons, foundFrom_cons, List.length_cons]
      refine (h.comma j).then (h.reads_append hfirst (fun x hx => ?_) rest)
      exact ReadsBack.follow_others h.follow hx

/-- **Members with commas between them**, at least one. -/
theorem reads_separated {as : List α} (ha : ReadsBack.AtLeastOne Ok as) (k : Nat) :
    Reads d Follow (start 0) ((Draft.separated ", " (as.map f)).chars d k)
      (parameterMarks d k (foundFrom found 0 as)) (stop (as.length - 1)) := by
  obtain ⟨a, as, rfl⟩ := List.exists_cons_of_ne_nil ha.1
  obtain ⟨hfirst, hrest⟩ := List.forall_mem_cons.1 ha.2
  have others := h.reads_others hrest 0 (k + (f a).slots.length)
  rw [Nat.zero_add as.length] at others
  rw [List.map_cons, Draft.separated_cons, foundFrom_cons, List.length_cons, Nat.add_sub_cancel]
  exact h.reads_append hfirst (fun x hx => ReadsBack.follow_others h.follow hx) others

/-- **A list in parentheses**, between the places before and behind it. -/
theorem reads_list {as : List α} (ha : ReadsBack.AtLeastOne Ok as) (p p' : Place)
    (opens : p.step '(' = start 0) (closes : ∀ j, (stop j).step ')' = p')
    (close : ∀ x, Follow (')' :: x)) (k : Nat) :
    Reads d (fun _ => True) p ((Draft.list (as.map f)).chars d k)
      (parameterMarks d k (foundFrom found 0 as)) p' := by
  have first : Reads d (fun _ => True) p ['('] [] (start 0) :=
    opens ▸ reads_char (by cases d <;> decide) (by cases d <;> decide)
  have last : Reads d (fun _ => True) (stop (as.length - 1)) [')'] [] p' :=
    closes (as.length - 1) ▸ reads_char (by cases d <;> decide) (by cases d <;> decide)
  rw [Draft.chars_list (h.complete_map ha.2)]
  have inside := (h.reads_separated ha k).append last fun x _ => close x
  rw [List.append_nil] at inside
  exact first.then inside

end ReadsMembers

end Members

/-! ### The parts of a statement -/

section Parts

variable {d : Dialect}

/-- Text without quotes, parentheses and beginnings of slots. -/
def Dialect.Neutral (d : Dialect) (cs : List Char) : Prop :=
  ∀ c ∈ cs, c ∉ d.quotes ∧ c ≠ d.slotStart ∧ c ≠ '(' ∧ c ≠ ')'

instance (d : Dialect) : DecidablePred d.Neutral := fun cs =>
  List.decidableBAll (fun c => c ∉ d.quotes ∧ c ≠ d.slotStart ∧ c ≠ '(' ∧ c ≠ ')') cs

/-- Fixed text, outside of lists. -/
theorem reads_text (p : Place) (hp : p.depth = 0) (s : String) (h : d.Neutral s.toList) :
    Reads d (fun _ => True) p s.toList [] p := by
  refine reads_of_forall fun c hc => ?_
  obtain ⟨hq, hs, opens, closes⟩ := h c hc
  exact ⟨hq, hs, by simp [Place.step, opens, closes, hp]⟩

theorem reads_comma (p : Place) : Reads d (fun _ => True) p [',', ' '] [] (p.step ',') := by
  have blank : ((p.step ',').step ' ') = p.step ',' := by simp [Place.step]
  have first : Reads d (fun _ => True) p [','] [] (p.step ',') :=
    reads_char (by cases d <;> decide) (by cases d <;> decide)
  have second : Reads d (fun _ => True) (p.step ',') [' '] [] ((p.step ',').step ' ') :=
    reads_char (by cases d <;> decide) (by cases d <;> decide)
  exact first.then (blank ▸ second)

/-- Names with commas between them, where a comma leads from one place to the next. -/
theorem readsMembers_ofColumn (place : Nat → Place)
    (step : ∀ j, (place j).step ',' = place (j + 1)) :
    ReadsMembers d (Draft.ofColumn d) (QuoteFree d) (fun _ => True) (fun _ _ => [])
      place place where
  complete _ := Draft.complete_ofColumn d _
  slots _ _ := rfl
  reads j k hname := by
    rw [Draft.ofColumn, Draft.chars_text]
    exact reads_quoteIdentifier hname
  comma j := step j ▸ reads_comma (place j)
  follow _ := trivial

/-- The literals of an array, which stands in a list itself. -/
theorem readsMembers_ofValue (p : Place) (hp : 1 < p.depth) :
    ReadsMembers d (Draft.ofValue d) (fun v => (Draft.ofValue d v).Complete) (fun _ => True)
      (fun _ _ => []) (fun _ => p) fun _ => p where
  complete h := h
  slots _ h := Draft.slots_ofValue h
  reads _ k h := by
    rw [Draft.ofValue_of_complete h, Draft.chars_text]
    exact reads_literal _
  comma _ := by
    have stays : p.step ',' = p := by simp [Place.step, Nat.ne_of_gt hp]
    have comma := reads_comma (d := d) p
    rwa [stays] at comma
  follow _ := trivial

theorem foundFrom_nothing {α : Type} (j : Nat) (as : List α) :
    foundFrom (fun _ _ => []) j as = [] := by
  simp [foundFrom]

/-- **A cell** has a mark where it is a parameter, and no other cell has one. -/
theorem readsMembers_ofCell (row : Nat) :
    ReadsMembers d (Draft.ofCell d) (Cell.Readable d) Stops (cellParameter row)
      (fun col => ⟨row + 2, col, 1⟩) fun col => ⟨row + 2, col, 1⟩ where
  complete h := h.complete
  slots {cell} j h := by
    cases cell with
    | literal v => exact Draft.slots_ofValue h.complete
    | slot s => rfl
    | array vs => exact Draft.slots_ofArray h.complete
    | column name => rfl
  reads {cell} col k h := by
    cases cell with
    | literal v =>
        show Reads d Stops _ ((Draft.ofValue d v).chars d k) [] _
        rw [Draft.ofValue_of_complete h.complete, Draft.chars_text]
        exact reads_literal v
    | slot s =>
        show Reads d Stops _ ((Draft.slot s).chars d k) _ _
        rw [Draft.chars_slot]
        exact reads_placeholder (k + 1)
    | array vs =>
        show Reads d Stops _ ((Draft.ofArray d vs).chars d k) [] _
        obtain ⟨e, complete⟩ := Draft.ofArray_of_complete h.complete
        have filled : vs ≠ [] := by
          rintro rfl
          exact absurd h.complete (Draft.not_complete_fail _)
        have members := readsMembers_ofValue (d := d) ⟨row + 2, col, 2⟩ Nat.one_lt_two
        have list := members.reads_list ⟨filled, complete⟩ ⟨row + 2, col, 1⟩ ⟨row + 2, col, 1⟩
          (by simp [Place.step]) (by simp [Place.step]) (fun _ => trivial) k
        rw [foundFrom_nothing] at list
        rw [e]
        exact fun rest _ => list rest trivial
    | column name =>
        show Reads d Stops _ ((Draft.ofColumn d name).chars d k) [] _
        rw [Draft.ofColumn, Draft.chars_text]
        exact reads_quoteIdentifier (h.quoteFree name rfl)
  comma col := by
    have next : (⟨row + 2, col, 1⟩ : Place).step ',' = ⟨row + 2, col + 1, 1⟩ := by simp [Place.step]
    exact next ▸ reads_comma _
  follow x := ⟨',', rfl, .inl rfl⟩

/-- **A row** has the marks of its parameters. -/
theorem readsMembers_row :
    ReadsMembers d (fun row => Draft.list (row.map (Draft.ofCell d)))
      (ReadsBack.AtLeastOne (Cell.Readable d)) (fun _ => True) rowParameters
      (fun row => ⟨row + 1, 0, 0⟩) fun row => ⟨row + 2, 0, 0⟩ where
  complete h := (Draft.complete_list_iff _).2 ((readsMembers_ofCell 0).complete_map h.2)
  slots row h := by
    rw [Draft.slots_list ((readsMembers_ofCell row).complete_map h.2)]
    exact (readsMembers_ofCell row).slots_flatMap h.2 0
  reads row k h := by
    refine (readsMembers_ofCell row).reads_list h _ _ ?_ (fun col => ?_) (fun x => ?_) k
    · simp [Place.step]
    · simp [Place.step]
    · exact ⟨')', rfl, .inr rfl⟩
  comma row := by
    have stays : (⟨row + 2, 0, 0⟩ : Place).step ',' = ⟨row + 2, 0, 0⟩ := by simp [Place.step]
    exact stays ▸ reads_comma _
  follow _ := trivial

/-- A table's name has no marks. -/
theorem reads_ofTable {t : Table} (h : t.NamesQuoteFree d) {p : Place} (hp : p.depth = 0)
    (k : Nat) : Reads d (fun _ => True) p ((Draft.ofTable d t).chars d k) [] p := by
  obtain ⟨schema, name⟩ := t
  cases schema with
  | none =>
      rw [Draft.ofTable, Draft.chars_text]
      exact reads_quoteIdentifier h.name
  | some schema =>
      rw [Draft.ofTable, Draft.chars_text_append, Draft.chars_text_append, Draft.chars_text]
      have point := reads_text (d := d) p hp "." (by cases d <;> decide)
      exact (reads_quoteIdentifier (h.schema _ rfl)).then
        (point.then (reads_quoteIdentifier h.name))

/-- Neither has the RETURNING list. -/
theorem reads_ofReturning {columns : List String} (h : ∀ x ∈ columns, QuoteFree d x) {p : Place}
    (hp : p.depth = 0) (k : Nat) :
    Reads d (fun _ => True) p ((Draft.ofReturning d columns).chars d k) [] p := by
  have stays : p.step ',' = p := by simp [Place.step, hp]
  unfold Draft.ofReturning
  split
  · exact .nil
  · next filled =>
      have word := reads_text (d := d) p hp " RETURNING " (by cases d <;> decide)
      have names := (readsMembers_ofColumn (d := d) (fun _ => p) fun _ => stays).reads_separated
        ⟨by simpa using filled, h⟩ k
      rw [foundFrom_nothing] at names
      rw [Draft.chars_text_append]
      exact word.then names

/-- **The marks of a statement** are its parameters. -/
theorem reads_insertBody {s : Insert} (h : s.Readable d) :
    Reads d (fun _ => True) ⟨0, 0, 0⟩ ((Draft.insertBody d s).chars d 0)
      (parameterMarks d 0 s.parameters) ⟨s.rows.length - 1 + 2, 0, 0⟩ := by
  have names := readsMembers_ofColumn (d := d) (fun j => ⟨1, j, 1⟩) fun j => by simp [Place.step]
  have columns := names.reads_list h.columns ⟨0, 0, 0⟩ ⟨1, 0, 0⟩ (by simp [Place.step])
    (by simp [Place.step]) (fun _ => trivial) 0
  rw [foundFrom_nothing] at columns
  have rows := (readsMembers_row (d := d)).reads_separated h.rows 0
  have insert := reads_text (d := d) ⟨0, 0, 0⟩ rfl "INSERT INTO " (by cases d <;> decide)
  have blank := reads_text (d := d) ⟨0, 0, 0⟩ rfl " " (by cases d <;> decide)
  have values := reads_text (d := d) ⟨1, 0, 0⟩ rfl " VALUES " (by cases d <;> decide)
  have complete : (Draft.separated ", " (s.rows.map fun row =>
      Draft.list (row.map (Draft.ofCell d)))).Complete :=
    (Draft.complete_separated_iff _).2 (readsMembers_row.complete_map h.rows.2)
  have columnsComplete : (Draft.list (s.columns.map (Draft.ofColumn d))).Complete := by simp
  have columnSlots : (Draft.list (s.columns.map (Draft.ofColumn d))).slots = [] := by
    rw [Draft.slots_list (by simp), Draft.slots_names]
  rw [Draft.insertBody, Draft.chars_text_append, Draft.chars_append (Draft.complete_ofTable d _),
    Draft.slots_ofTable, List.length_nil, Draft.chars_text_append,
    Draft.chars_append columnsComplete, columnSlots, List.length_nil, Draft.chars_text_append,
    Draft.chars_append complete, ← List.append_nil (parameterMarks d 0 s.parameters)]
  exact insert.then ((reads_ofTable h.table rfl 0).then (blank.then (columns.then (values.then
    (rows.append (reads_ofReturning h.returning rfl _) fun _ _ => trivial)))))

/-- The slots of a statement are those of its parameters. -/
theorem slots_eq_parameters {s : Insert} (h : s.Readable d) :
    (Draft.insertBody d s).slots = s.parameters.map Parameter.slot := by
  rw [Draft.slots_insertBody fun row hrow cell hcell => ((h.rows.2 row hrow).2 cell hcell).complete]
  exact readsMembers_row.slots_flatMap h.rows.2 0

end Parts

/-! ### Values for the slots -/

namespace Bindings

variable (b : Bindings)

/-- The slot has a value: its name was set, or there are as many positional values. -/
def Binds : Slot → Prop
  | .named name => name ∈ b.named.keys
  | .positional n => 1 ≤ n.toNat ∧ n.toNat ≤ b.positional.length

/-- The value of a slot: the one of the name, or the one at the position. -/
def Gives : Slot → Value → Prop
  | .named name, v => (name, v) ∈ b.named.entries
  | .positional n, v => ∃ i, n.toNat = i + 1 ∧ b.positional[i]? = some v

variable {b} {slot : Slot}

theorem value?_positional (n : UInt64) :
    b.value? (.positional n) = if n.toNat = 0 then none else b.positional[n.toNat - 1]? := by
  rw [value?]
  by_cases h : n = 0
  · subst h
    rfl
  · have : n.toNat ≠ 0 := fun e => h (UInt64.toNat_inj.1 e)
    rw [if_neg h, if_neg this]

theorem value?_eq_some_iff {v : Value} : b.value? slot = some v ↔ b.Gives slot v := by
  cases slot with
  | named name => exact Store.mem_entries_iff.symm
  | positional n =>
      rw [value?_positional]
      cases h : n.toNat with
      | zero => simp [Gives, h]
      | succ i => simp [Gives, h]

theorem isSome_value? : (b.value? slot).isSome ↔ b.Binds slot := by
  cases slot with
  | named name => exact Store.isSome_get? ..
  | positional n =>
      rw [value?_positional, Binds]
      cases h : n.toNat with
      | zero => simp
      | succ i =>
          rw [if_neg (Nat.succ_ne_zero i), Nat.add_sub_cancel]
          simp only [isSome_getElem?]
          omega

theorem resolve_cons_of_some {rest : List Slot} {v : Value} (h : b.value? slot = some v) :
    b.resolve (slot :: rest) = (b.resolve rest).map (v :: ·) := by
  rw [resolve, h]
  rfl

theorem resolve_cons_of_none {rest : List Slot} (h : b.value? slot = none) :
    b.resolve (slot :: rest) = .error (.missingArgument slot.text) := by
  rw [resolve, h]
  rfl

/-- The answer has a value for each slot, in order. -/
theorem gives_of_resolve {slots : List Slot} {vs : List Value} (h : b.resolve slots = .ok vs) :
    List.Forall₂ b.Gives slots vs := by
  induction slots generalizing vs with
  | nil => cases h; exact .nil
  | cons slot rest ih =>
      cases hv : b.value? slot with
      | none => rw [resolve_cons_of_none hv] at h; cases h
      | some v =>
          rw [resolve_cons_of_some hv] at h
          cases hr : b.resolve rest with
          | error e => rw [hr] at h; cases h
          | ok ws =>
              rw [hr] at h
              cases h
              exact .cons (value?_eq_some_iff.1 hv) (ih hr)

theorem binds_of_gives {slots : List Slot} {vs : List Value} (h : List.Forall₂ b.Gives slots vs) :
    ∀ slot ∈ slots, b.Binds slot := by
  induction h with
  | nil => exact fun _ hm => absurd hm List.not_mem_nil
  | cons given _ ih =>
      refine List.forall_mem_cons.2 ⟨isSome_value?.1 ?_, ih⟩
      rw [value?_eq_some_iff.2 given]
      rfl

/-- The first slot without a value is the answer. -/
theorem resolve_of_unbound {pre post : List Slot} (hpre : ∀ t ∈ pre, b.Binds t)
    (h : ¬ b.Binds slot) :
    b.resolve (pre ++ slot :: post) = .error (.missingArgument slot.text) := by
  induction pre with
  | nil => exact resolve_cons_of_none (by simpa [← isSome_value?] using h)
  | cons first pre ih =>
      obtain ⟨hfirst, hrest⟩ := List.forall_mem_cons.1 hpre
      obtain ⟨v, hv⟩ := Option.isSome_iff_exists.1 (isSome_value?.2 hfirst)
      rw [List.cons_append, resolve_cons_of_some hv, ih hrest]
      rfl

/-- **Every slot has a value** exactly when there is an answer. -/
theorem exists_resolve_iff {slots : List Slot} :
    (∃ vs, b.resolve slots = .ok vs) ↔ ∀ slot ∈ slots, b.Binds slot := by
  constructor
  · rintro ⟨vs, h⟩
    exact binds_of_gives (gives_of_resolve h)
  · intro h
    induction slots with
    | nil => exact ⟨[], rfl⟩
    | cons slot rest ih =>
        obtain ⟨hfirst, hrest⟩ := List.forall_mem_cons.1 h
        obtain ⟨v, hv⟩ := Option.isSome_iff_exists.1 (isSome_value?.2 hfirst)
        obtain ⟨vs, hvs⟩ := ih hrest
        exact ⟨v :: vs, by rw [resolve_cons_of_some hv, hvs]; rfl⟩

end Bindings

/-! ### Statements that are rendered -/

/-- **Placeholders and slots agree.** Where a statement without the quote of the dialect in its
names is rendered, its slots are those of its parameter cells, row by row; the bind slots that a
server finds outside of quotes are as many, the `k`-th is the placeholder of position `k`, and it
stands where the `k`-th parameter cell stands. The values of a call can be had exactly when each
slot has one; then they are those of the slots in order, and else the first slot without a value is
named. -/
theorem placeholders_in_order (c : Context) (s : Insert) (r : Rendering)
    (names : s.NamesQuoteFree c.dialect) (h : (Node.insert s).render c = .ok r) :
    r.slots = s.parameters.map Parameter.slot ∧
    c.dialect.marks r.sql = s.parameters.zipIdx.map (fun e =>
      ⟨⟨e.1.row + 2, e.1.col, 1⟩, (c.dialect.placeholder (e.2 + 1)).toList⟩) ∧
    ∀ b : Bindings,
      ((∃ vs, b.resolve r.slots = .ok vs) ↔ ∀ slot ∈ r.slots, b.Binds slot) ∧
      (∀ vs, b.resolve r.slots = .ok vs → List.Forall₂ b.Gives r.slots vs) ∧
      ∀ pre slot post, r.slots = pre ++ slot :: post → (∀ t ∈ pre, b.Binds t) → ¬ b.Binds slot →
        b.resolve r.slots = .error (.missingArgument slot.text) := by
  obtain ⟨readable, sql⟩ := Insert.readable_of_render h names
  obtain ⟨-, -, -, slots⟩ := Node.render_insert_eq_ok_iff.1 h
  refine ⟨slots.trans (slots_eq_parameters readable), ?_, fun b => ⟨Bindings.exists_resolve_iff,
    fun vs => Bindings.gives_of_resolve, fun pre slot post e hpre unbound => ?_⟩⟩
  · have marks := reads_insertBody readable [] trivial
    rw [List.append_nil, ← sql] at marks
    exact marks.trans (List.append_nil _)
  · rw [e]
    exact Bindings.resolve_of_unbound hpre unbound

/-- Two rows in which literals and names look like bind slots, one slot of them twice. -/
def disguised : Insert :=
  ⟨⟨none, "$1"⟩, ["?", "'"],
    [[.slot (.named "a"), .literal (.string "', $2, ?")],
      [.slot (.positional 2), .slot (.named "a")]],
    []⟩

theorem namesQuoteFree_disguised (d : Dialect) : disguised.NamesQuoteFree d where
  table     := ⟨fun _ h => (by cases h), (by cases d <;> decide)⟩
  columns   := by cases d <;> decide
  returning := by cases d <;> decide
  cells     := by simp [disguised]

theorem disguised_placeholders_in_order :
    disguised.NamesQuoteFree .postgres ∧ ∃ r, (Node.insert disguised).render {} = .ok r ∧
      r.slots = [.named "a", .positional 2, .named "a"] ∧
      Dialect.postgres.marks r.sql =
        [⟨⟨2, 0, 1⟩, ['$', '1']⟩, ⟨⟨3, 0, 1⟩, ['$', '2']⟩, ⟨⟨3, 1, 1⟩, ['$', '3']⟩] := by
  obtain ⟨r, h⟩ : ∃ r, (Node.insert disguised).render {} = .ok r := ⟨_, rfl⟩
  obtain ⟨slots, marks, -⟩ := placeholders_in_order {} disguised r (namesQuoteFree_disguised _) h
  exact ⟨namesQuoteFree_disguised _, r, h, slots, marks.trans (by decide)⟩

end PreparedSql
