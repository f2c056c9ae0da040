import PreparedSql.Rendering

/-!
# What drafts are written as

A rendering is its draft with every slot replaced by the placeholder of its position.  So the text
of a draft is a function of the draft and of the number of slots written before it
(`Draft.chars`), its slots are a function of the draft alone (`Draft.slots`), and both send one
draft after the other to one list after the other.

* `Rendering.writeTokens_eq`: writing appends the text and the slots of a draft to what is there.
* `Node.render_eq_ok_iff`: a node can be written by itself exactly when its draft is complete, and
  the answer is the text and the slots of the draft.
* `Node.render_insert_eq_ok_iff`: a statement can be written exactly when nothing is against it in
  its context and its cells can be written.
-/

namespace PreparedSql

namespace Token

/-- The text of a token that `k` slots stand before. -/
def chars (d : Dialect) (k : Nat) : Token → List Char
  | .text s => s.toList
  | .slot _ => (d.placeholder (k + 1)).toList

def slots : Token → List Slot
  | .text _ => []
  | .slot s => [s]

end Token

namespace Draft

/-- The text of tokens that `k` slots stand before. -/
def tokenChars (d : Dialect) : (k : Nat) → List Token → List Char
  | _, [] => []
  | k, t :: rest => t.chars d k ++ tokenChars d (k + t.slots.length) rest

/-- The text of a draft that `k` slots stand before. -/
def chars (d : Dialect) (k : Nat) (a : Draft) : List Char := tokenChars d k a.tokens

def slots (a : Draft) : List Slot := a.tokens.flatMap Token.slots

/-- The draft does not end in an error. -/
def Complete (a : Draft) : Prop := a.fault = none

/-- Placeholders are numbered through, so what comes later starts from the slots before it. -/
theorem tokenChars_append (d : Dialect) (ts us : List Token) : ∀ k : Nat,
    tokenChars d k (ts ++ us) =
      tokenChars d k ts ++ tokenChars d (k + (ts.flatMap Token.slots).length) us := by
  induction ts with
  | nil => intro k; simp [tokenChars]
  | cons t ts ih => intro k; simp [tokenChars, ih, Nat.add_assoc]

end Draft

/-- **Writing only appends.**  The text of the tokens comes after the text that is there, the
first slot at the next position, and their slots after the slots that are there. -/
theorem Rendering.writeTokens_eq (d : Dialect) (ts : List Token) : ∀ r : Rendering,
    r.writeTokens d ts =
      ⟨r.sql ++ String.ofList (Draft.tokenChars d r.slots.length ts),
        r.slots ++ ts.flatMap Token.slots⟩ := by
  induction ts with
  | nil => intro r; simp [writeTokens, Draft.tokenChars]
  | cons t ts ih =>
      intro r
      have step : r.writeTokens d (t :: ts) = (r.writeToken d t).writeTokens d ts := rfl
      rw [step, ih]
      cases t <;>
        simp [writeToken, Draft.tokenChars, Token.chars, Token.slots, String.ofList_append,
          String.append_assoc]

namespace Draft

variable {a b : Draft}

/-! ### One draft after the other -/

/-- What follows a complete draft is written behind it. -/
theorem append_of_complete (h : a.Complete) : a ++ b = ⟨a.tokens ++ b.tokens, b.fault⟩ := by
  have e : a ++ b = a.append b := rfl
  rw [e, append, show a.fault = none from h]

/-- Nothing is written behind a fault. -/
theorem append_of_fault {fault : RenderError} (h : a.fault = some fault) : a ++ b = a := by
  show a.append b = a
  rw [append, h]

@[simp] theorem complete_append_iff : (a ++ b).Complete ↔ a.Complete ∧ b.Complete := by
  by_cases h : a.Complete
  · simp [append_of_complete h, Complete, show a.fault = none from h]
  · obtain ⟨f, e⟩ := Option.ne_none_iff_exists'.1 h
    rw [append_of_fault e]
    simp [h]

/-- The text of a draft depends on how many slots stand before it. -/
theorem chars_append (h : a.Complete) (d : Dialect) (k : Nat) :
    (a ++ b).chars d k = a.chars d k ++ b.chars d (k + a.slots.length) := by
  rw [append_of_complete h]
  exact tokenChars_append d a.tokens b.tokens k

theorem slots_append (h : a.Complete) : (a ++ b).slots = a.slots ++ b.slots := by
  rw [append_of_complete h]
  exact List.flatMap_append

@[simp] theorem complete_nothing : nothing.Complete := rfl
@[simp] theorem complete_text (s : String) : (text s).Complete := rfl
@[simp] theorem complete_slot (s : Slot) : (slot s).Complete := rfl
@[simp] theorem not_complete_fail (f : RenderError) : ¬ (fail f).Complete := by
  simp [Complete, fail]

@[simp] theorem chars_nothing (d : Dialect) (k : Nat) : nothing.chars d k = [] := rfl

@[simp] theorem chars_text (d : Dialect) (k : Nat) (s : String) :
    (text s).chars d k = s.toList := by
  simp [chars, text, tokenChars, Token.chars]

@[simp] theorem chars_slot (d : Dialect) (k : Nat) (s : Slot) :
    (slot s).chars d k = (d.placeholder (k + 1)).toList := by
  simp [chars, slot, tokenChars, Token.chars]

@[simp] theorem slots_nothing : nothing.slots = [] := rfl
@[simp] theorem slots_text (s : String) : (text s).slots = [] := rfl
@[simp] theorem slots_slot (s : Slot) : (slot s).slots = [s] := rfl

/-- A text without slots does not depend on the slots before it. -/
theorem chars_of_slots_eq_nil (h : a.slots = []) (d : Dialect) (k : Nat) :
    a.chars d k = a.chars d 0 := by
  obtain ⟨ts, fault⟩ := a
  have none : ∀ t ∈ ts, t.slots = [] := by simpa [slots] using h
  show tokenChars d k ts = tokenChars d 0 ts
  clear h
  induction ts with
  | nil => rfl
  | cons t ts ih =>
      have rest := ih fun u hu => none u (List.mem_cons_of_mem _ hu)
      cases t with
      | text s => simpa [tokenChars, Token.chars, Token.slots] using rest
      | slot s => simp [Token.slots] at none

theorem chars_text_append (d : Dialect) (k : Nat) (s : String) :
    (text s ++ b).chars d k = s.toList ++ b.chars d k := by
  simp [chars_append (complete_text s)]

/-! ### Lists of drafts -/

@[simp] theorem append_nothing (a : Draft) : a ++ nothing = a := by
  show a.append nothing = a
  obtain ⟨ts, fault⟩ := a
  cases fault <;> simp [append, nothing]

/-- The members of a list after its first, each with a comma in front of it. -/
def others : List Draft → Draft
  | [] => nothing
  | x :: ds => text ", " ++ (x ++ others ds)

/-- The first draft has no separator in front, all others have one. -/
theorem separated_cons (x : Draft) (ds : List Draft) :
    separated ", " (x :: ds) = x ++ others ds := by
  induction ds generalizing x with
  | nil => exact (append_nothing x).symm
  | cons y ds ih =>
      show x ++ (text ", " ++ separated ", " (y :: ds)) = _
      rw [ih]
      rfl

/-- A list is complete if all its parts are. -/
@[simp] theorem complete_others_iff (ds : List Draft) :
    (others ds).Complete ↔ ∀ x ∈ ds, x.Complete := by
  induction ds with
  | nil => simp [others]
  | cons x ds ih => simp [others, ih]

@[simp] theorem complete_separated_iff (ds : List Draft) :
    (separated ", " ds).Complete ↔ ∀ x ∈ ds, x.Complete := by
  cases ds with
  | nil => simp [separated]
  | cons x ds => simp [separated_cons]

@[simp] theorem complete_list_iff (ds : List Draft) :
    (list ds).Complete ↔ ∀ x ∈ ds, x.Complete := by
  simp [list]

/-- The text of a list in parentheses. -/
theorem chars_list {ds : List Draft} (h : ∀ x ∈ ds, x.Complete) (d : Dialect) (k : Nat) :
    (list ds).chars d k = '(' :: ((separated ", " ds).chars d k ++ [')']) := by
  rw [list, chars_text_append, chars_append ((complete_separated_iff _).2 h), chars_text]
  rfl

/-- A comma tells that there is another member. -/
theorem chars_others_cons (x : Draft) (ds : List Draft) (d : Dialect) (k : Nat) :
    (others (x :: ds)).chars d k = ',' :: ' ' :: (x ++ others ds).chars d k := by
  rw [others, chars_text_append]
  rfl

/-- The slots of a list are those of its parts, in their order. -/
theorem slots_others {ds : List Draft} (h : ∀ x ∈ ds, x.Complete) :
    (others ds).slots = ds.flatMap slots := by
  induction ds with
  | nil => rfl
  | cons x ds ih =>
      obtain ⟨hx, hds⟩ := List.forall_mem_cons.1 h
      rw [others, slots_append (complete_text _), slots_append hx, ih hds]
      rfl

theorem slots_separated {ds : List Draft} (h : ∀ x ∈ ds, x.Complete) :
    (separated ", " ds).slots = ds.flatMap slots := by
  cases ds with
  | nil => rfl
  | cons x ds =>
      obtain ⟨hx, hds⟩ := List.forall_mem_cons.1 h
      rw [separated_cons, slots_append hx, slots_others hds]
      rfl

/-- The slots of a list are those of its members. -/
theorem slots_list {ds : List Draft} (h : ∀ x ∈ ds, x.Complete) :
    (list ds).slots = ds.flatMap slots := by
  rw [list, slots_append (complete_text _), slots_append ((complete_separated_iff _).2 h),
    slots_separated h]
  simp

/-! ### Names and tables -/

@[simp] theorem complete_ofColumn (d : Dialect) (name : String) : (ofColumn d name).Complete := rfl

@[simp] theorem complete_ofTable (d : Dialect) (t : Table) : (ofTable d t).Complete := by
  unfold ofTable
  split <;> simp

@[simp] theorem slots_ofTable (d : Dialect) (t : Table) : (ofTable d t).slots = [] := by
  unfold ofTable
  split <;> simp [slots_append]

@[simp] theorem slots_ofColumn (d : Dialect) (name : String) : (ofColumn d name).slots = [] := rfl

/-- Names have no slots, however many they are. -/
@[simp] theorem slots_names (d : Dialect) (names : List String) :
    (names.map (ofColumn d)).flatMap slots = [] := by
  simp [List.flatMap_map]

/-! ### Statements -/

/-- Names of columns have no slots. -/
theorem slots_ofReturning (d : Dialect) (columns : List String) :
    (ofReturning d columns).slots = [] := by
  unfold ofReturning
  split
  · rfl
  · rw [slots_append (complete_text _), slots_separated (by simp)]
    simp

theorem complete_ofReturning (d : Dialect) (columns : List String) :
    (ofReturning d columns).Complete := by
  unfold ofReturning
  split
  · simp
  · simp [complete_ofColumn]

/-- A statement is complete when all its cells are. -/
theorem complete_insertBody_iff (d : Dialect) (s : Insert) :
    (insertBody d s).Complete ↔ ∀ row ∈ s.rows, ∀ cell ∈ row, (ofCell d cell).Complete := by
  simp [insertBody, complete_ofReturning]

/-- The slots of a statement are those of its rows. -/
theorem slots_insertBody {d : Dialect} {s : Insert}
    (h : ∀ row ∈ s.rows, ∀ cell ∈ row, (ofCell d cell).Complete) :
    (insertBody d s).slots = (s.rows.map fun row => list (row.map (ofCell d))).flatMap slots := by
  have rows : ∀ x ∈ s.rows.map fun row => list (row.map (ofCell d)), x.Complete := by simpa using h
  have columns : (list (s.columns.map (ofColumn d))).Complete := by simp
  rw [insertBody, slots_append (complete_text _), slots_append (complete_ofTable d _),
    slots_append (complete_text _), slots_append columns, slots_append (complete_text _),
    slots_append ((complete_separated_iff _).2 rows), slots_separated rows,
    slots_list (by simp), slots_ofReturning]
  simp

/-- **A complete statement** has nothing against it in its context and no cell that fails. -/
theorem complete_ofInsert_iff (c : Context) (s : Insert) :
    (ofInsert c s).Complete ↔
      s.fault? c = none ∧ ∀ row ∈ s.rows, ∀ cell ∈ row, (ofCell c.dialect cell).Complete := by
  rw [← complete_insertBody_iff, ofInsert]
  cases s.fault? c <;> simp

/-- A statement without a fault of its own is written as its parts say. -/
theorem ofInsert_of_fault_none {c : Context} {s : Insert} (h : s.fault? c = none) :
    ofInsert c s = insertBody c.dialect s := by
  rw [ofInsert, h]

end Draft

/-! ### Rendering by itself -/

/-- The answer for a node is its draft's fault, or its draft's text and slots. -/
theorem Node.render_eq (c : Context) (n : Node) :
    n.render c = match (Draft.ofNode c n).fault with
      | some fault => .error (.render fault)
      | none =>
        .ok ⟨String.ofList ((Draft.ofNode c n).chars c.dialect 0), (Draft.ofNode c n).slots⟩ := by
  unfold Node.render Rendering.accept
  simp only [Rendering.writeTokens_eq]
  cases (Draft.ofNode c n).fault with
  | some fault => rfl
  | none => simp [Rendering.empty, Draft.chars, Draft.slots, pure, Except.pure]

/-- **A node is rendered exactly when its draft is complete**, to the text and the slots of the
draft. -/
theorem Node.render_eq_ok_iff {c : Context} {n : Node} {r : Rendering} :
    n.render c = .ok r ↔
      (Draft.ofNode c n).Complete ∧ r.sql.toList = (Draft.ofNode c n).chars c.dialect 0 ∧
        r.slots = (Draft.ofNode c n).slots := by
  rw [Node.render_eq]
  unfold Draft.Complete
  cases (Draft.ofNode c n).fault with
  | some fault => simp
  | none =>
      constructor
      · intro h
        cases h
        simp
      · rintro ⟨-, hsql, hslots⟩
        rw [← hsql, ← hslots, String.ofList_toList]

/-- **A statement is rendered exactly when** nothing is against it and every cell is complete, to
the text and the slots of its body. -/
theorem Node.render_insert_eq_ok_iff {c : Context} {s : Insert} {r : Rendering} :
    (Node.insert s).render c = .ok r ↔
      s.fault? c = none ∧ (∀ row ∈ s.rows, ∀ cell ∈ row, (Draft.ofCell c.dialect cell).Complete) ∧
        r.sql.toList = (Draft.insertBody c.dialect s).chars c.dialect 0 ∧
        r.slots = (Draft.insertBody c.dialect s).slots := by
  rw [Node.render_eq_ok_iff, Draft.ofNode, Draft.complete_ofInsert_iff, and_assoc]
  refine and_congr_right fun fault => ?_
  rw [Draft.ofInsert_of_fault_none fault]

end PreparedSql
