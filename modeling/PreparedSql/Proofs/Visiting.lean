import PreparedSql.Proofs.Writing

/-!
# Nodes visited part by part

A node can be written to a rendering in one pass over its parts: each text and each slot is added
where the pass meets it, and at the first part that cannot be written the pass fails and leaves what
is there (`Visit.node`).  The draft of a node says the same without a pass.  Written to a rendering,
one draft after the other is one visit after the other (`Draft.visit_append`), so lists, rows and
statements are visited as their drafts are put together, wherever one of them ends in an error.

* `Draft.visit_ofNode`: the draft of a node, written to a rendering, is the visit of the node.
* `Rendering.accept_only_appends`: what is there already has no part in what is added, but for the
  number of its slots, from which the placeholders of PostgreSQL count on; and one rendering serves
  for one node after the other as well as a new one for each.
-/

namespace PreparedSql

/-- A pass over a node: it changes a rendering, and may fail on the way. -/
abbrev Visit := ExceptT Error (StateM Rendering) Unit

namespace Visit

/-! ### Visits -/

def text (s : String) : Visit := modify fun r => { r with sql := r.sql ++ s }

/-- A slot, at the next position. -/
def slot (d : Dialect) (s : Slot) : Visit :=
  modify fun r => ⟨r.sql ++ d.placeholder (r.slots.length + 1), r.slots ++ [s]⟩

section

variable {α : Type} (visit : α → Visit)

/-- The members one after the other, with commas between them. -/
def separated : List α → Visit
  | [] => pure ()
  | x :: xs => do
    visit x
    xs.forM fun y => do
      text ", "
      visit y

/-- In parentheses, with commas. -/
def list (xs : List α) : Visit := do
  text "("
  separated visit xs
  text ")"

end

def table (d : Dialect) (t : Table) : Visit := do
  if let some schema := t.schema then
    text (d.quoteIdentifier schema)
    text "."
  text (d.quoteIdentifier t.name)

def column (d : Dialect) (name : String) : Visit := text (d.quoteIdentifier name)

def literal (d : Dialect) (v : Value) : Visit := do
  if Draft.isVector v ∧ ¬ d.supportsVector then throw (.render (.vectorUnsupported d))
  text (d.literal v)

def array (d : Dialect) (vs : List Value) : Visit := do
  if vs.isEmpty then throw (.render .emptyList)
  list (literal d) vs

def cell (d : Dialect) : Cell → Visit
  | .literal v   => literal d v
  | .slot s      => slot d s
  | .array vs    => array d vs
  | .column name => column d name

/-- Nothing is written of a statement that cannot be begun. -/
def insert (c : Context) (s : Insert) : Visit := do
  if let some fault := s.fault? c then throw (.render fault)
  text "INSERT INTO "
  table c.dialect s.table
  text " "
  list (column c.dialect) s.columns
  text " VALUES "
  separated (list (cell c.dialect)) s.rows
  unless s.returning.isEmpty do
    text " RETURNING "
    separated (column c.dialect) s.returning

def node (c : Context) : Node → Visit
  | .table t     => table c.dialect t
  | .column name => column c.dialect name
  | .literal v   => literal c.dialect v
  | .slot s      => slot c.dialect s
  | .array vs    => array c.dialect vs
  | .insert s    => insert c s

/-- One visit after the other: the second is made if the first does not fail. -/
theorem run_bind (v w : Visit) (r : Rendering) :
    (v >>= fun _ => w).run.run r =
      match v.run.run r with
      | (.ok _, r') => w.run.run r'
      | (.error e, r') => (.error e, r') := by
  simp only [ExceptT.run_bind, StateT.run_bind]
  rcases v.run.run r with ⟨outcome, r'⟩
  cases outcome <;> rfl

end Visit

namespace Draft

/-! ### Drafts as visits -/

/-- What a draft ends in. -/
def outcome (a : Draft) : Except Error Unit :=
  match a.fault with
  | some fault => throw (.render fault)
  | none => pure ()

/-- All tokens are written, and what the draft ends in is the outcome. -/
def visit (d : Dialect) (a : Draft) : Visit :=
  ExceptT.mk fun r => (a.outcome, r.writeTokens d a.tokens)

/-- A draft is visited by writing its tokens and stopping at its fault, if it has one. -/
theorem run_visit (d : Dialect) (a : Draft) (r : Rendering) :
    (a.visit d).run.run r = (a.outcome, r.writeTokens d a.tokens) := rfl

/-- **One draft after the other is one visit after the other.** -/
theorem visit_append (d : Dialect) (a b : Draft) :
    (a ++ b).visit d = (do a.visit d; b.visit d) := by
  refine ExceptT.ext (StateT.ext fun r => ?_)
  rw [Visit.run_bind, run_visit, run_visit]
  by_cases h : a.Complete
  · have ok : a.outcome = .ok () := by rw [outcome, show a.fault = none from h]; rfl
    rw [ok, append_of_complete h]
    simp [run_visit, outcome, Rendering.writeTokens]
  -- where the first ends in an error, neither the draft nor the visit goes on to the second
  · obtain ⟨fault, e⟩ := Option.ne_none_iff_exists'.1 h
    have error : a.outcome = .error (.render fault) := by rw [outcome, e]; rfl
    rw [error, append_of_fault e, error]

theorem visit_text (d : Dialect) (s : String) : (text s).visit d = Visit.text s := rfl

section

variable {α : Type} (d : Dialect) (f : α → Draft)

/-- In a list the separator is written before each part but the first. -/
theorem visit_others (xs : List α) :
    (others (xs.map f)).visit d = xs.forM fun x => (do Visit.text ", "; (f x).visit d) := by
  induction xs with
  | nil => rfl
  | cons x xs ih =>
      rw [List.map_cons, others, visit_append, visit_append, ih, visit_text, ← bind_assoc]
      rfl

theorem visit_separated (xs : List α) :
    (separated ", " (xs.map f)).visit d = Visit.separated (fun x => (f x).visit d) xs := by
  cases xs with
  | nil => rfl
  | cons x xs => rw [List.map_cons, separated_cons, visit_append, visit_others]; rfl

/-- A list is visited as its parts between parentheses. -/
theorem visit_list (xs : List α) :
    (list (xs.map f)).visit d = Visit.list (fun x => (f x).visit d) xs := by
  rw [list, visit_append, visit_append, visit_separated]
  rfl

end

theorem visit_ofTable (d : Dialect) (t : Table) : (ofTable d t).visit d = Visit.table d t := by
  obtain ⟨schema, name⟩ := t
  cases schema <;> rfl

theorem visit_ofColumn (d : Dialect) (name : String) :
    (ofColumn d name).visit d = Visit.column d name := rfl

/-- Only here does the dialect matter to what can be written: not all have vectors. -/
theorem visit_ofValue (d : Dialect) (v : Value) : (ofValue d v).visit d = Visit.literal d v := by
  rw [ofValue, Visit.literal]
  split <;> rfl

theorem visit_ofArray (d : Dialect) (vs : List Value) :
    (ofArray d vs).visit d = Visit.array d vs := by
  rw [ofArray, Visit.array]
  split
  · rfl
  · rw [visit_list]
    simp only [visit_ofValue]

/-- A cell is visited by its kind. -/
theorem visit_ofCell (d : Dialect) (cell : Cell) :
    (ofCell d cell).visit d = Visit.cell d cell := by
  cases cell with
  | literal v => exact visit_ofValue d v
  | slot s => rfl
  | array vs => exact visit_ofArray d vs
  | column name => rfl

theorem visit_ofReturning (d : Dialect) (columns : List String) :
    (ofReturning d columns).visit d =
      (unless columns.isEmpty do
        Visit.text " RETURNING "
        Visit.separated (Visit.column d) columns) := by
  rw [ofReturning]
  split
  · rfl
  · rw [visit_append, visit_separated]
    rfl

/-- The statement's own faults come before all of its parts. -/
theorem visit_ofInsert (c : Context) (s : Insert) :
    (ofInsert c s).visit c.dialect = Visit.insert c s := by
  rw [ofInsert, Visit.insert]
  cases s.fault? c with
  | some fault => rfl
  | none =>
      simp only [insertBody, visit_append, visit_list, visit_separated, visit_ofTable,
        visit_ofReturning, visit_ofCell, visit_text, visit_ofColumn]

/-- **The draft of a node**, written to a rendering, is the visit of the node. -/
theorem visit_ofNode (c : Context) (n : Node) :
    (ofNode c n).visit c.dialect = Visit.node c n := by
  cases n with
  | table t => exact visit_ofTable c.dialect t
  | column name => rfl
  | literal v => exact visit_ofValue c.dialect v
  | slot s => rfl
  | array vs => exact visit_ofArray c.dialect vs
  | insert s => exact visit_ofInsert c s

/-- Where placeholders have no numbers, the slots in front do not matter. -/
theorem tokenChars_of_ne_postgres {d : Dialect} (h : d ≠ .postgres) (ts : List Token) (j k : Nat) :
    tokenChars d j ts = tokenChars d k ts := by
  induction ts generalizing j k with
  | nil => rfl
  | cons t ts ih =>
      have same : t.chars d j = t.chars d k := by
        cases t with
        | text s => rfl
        | slot s => cases d <;> first | rfl | exact absurd rfl h
      rw [tokenChars, tokenChars, same, ih]

end Draft

/-! ### What writing a node adds -/

namespace Rendering

/-- Whether the writing fails, and the slots that it adds, are the same for every rendering; they
and the text that it adds come behind what is there.  The text depends on the number of slots that
are there, and where placeholders have no numbers not on that either. -/
def OnlyAppends (d : Dialect) (write : Rendering → Except Error Unit × Rendering) : Prop :=
  ∃ (outcome : Except Error Unit) (text : Nat → String) (slots : List Slot),
    (∀ r : Rendering, write r = (outcome, ⟨r.sql ++ text r.slots.length, r.slots ++ slots⟩)) ∧
      (d ≠ .postgres → ∀ j k, text j = text k)

/-- The nodes written to a rendering one by one.  What is there after each is taken out, whether or
not the node could be written to its end. -/
def takeEach (c : Context) : Rendering → List Node → List (Except Error Unit × Rendering)
  | _, [] => []
  | r, n :: ns =>
    let (outcome, written) := r.accept c n
    let (taken, left) := written.finish
    (outcome, taken) :: left.takeEach c ns

/-- **Writing a node is visiting it**, part by part. -/
theorem accept_eq_run (c : Context) (n : Node) (r : Rendering) :
    r.accept c n = (Visit.node c n).run.run r := by
  rw [← Draft.visit_ofNode, Draft.run_visit]
  rfl

/-- Writing a node adds to what stands there, and asks it for the number of slots alone. -/
theorem onlyAppends_accept (c : Context) (n : Node) :
    OnlyAppends c.dialect fun r => r.accept c n := by
  let a := Draft.ofNode c n
  refine ⟨a.outcome, fun k => String.ofList (a.chars c.dialect k), a.slots, fun r => ?_,
    fun h j k => ?_⟩
  · calc r.accept c n = (a.outcome, r.writeTokens c.dialect a.tokens) := rfl
      _ = _ := by rw [writeTokens_eq]; rfl
  · exact congrArg String.ofList (Draft.tokenChars_of_ne_postgres h a.tokens j k)

/-- Taking leaves an empty rendering behind, so each node is written as if it were the first. -/
theorem takeEach_empty (c : Context) (ns : List Node) :
    empty.takeEach c ns = ns.map (empty.accept c) := by
  induction ns with
  | nil => rfl
  | cons n ns ih =>
      have first : empty.takeEach c (n :: ns) = empty.accept c n :: empty.takeEach c ns := rfl
      rw [first, ih]
      rfl

/-- **Writing a node only appends.**  What is there stays as it is, whether or not the writing
fails, and has no part in what is added but for the numbers of PostgreSQL's placeholders.  That is
how a pass over the parts of the node goes, which stops at the first part that cannot be written.
Nodes that are written to one rendering one by one, some of them perhaps not to their end, are
written as each is to a rendering of its own. -/
theorem accept_only_appends (c : Context) :
    (∀ n, OnlyAppends c.dialect fun r => r.accept c n) ∧
      (∀ n (r : Rendering), r.accept c n = (Visit.node c n).run.run r) ∧
      ∀ ns, empty.takeEach c ns = ns.map (empty.accept c) :=
  ⟨onlyAppends_accept c, accept_eq_run c, takeEach_empty c⟩

/-- A row that ends in an empty array is left where the array would be. -/
example :
    accept ⟨.mysql, {}⟩ ⟨"-- ", []⟩
        (.insert ⟨⟨none, "t"⟩, ["a", "b"], [[.slot (.positional 7), .array []]], []⟩) =
      (.error (.render .emptyList),
        ⟨"-- INSERT INTO `t` (`a`, `b`) VALUES (?, ", [.positional 7]⟩) :=
  rfl

end Rendering

end PreparedSql
