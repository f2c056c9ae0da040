import PreparedSql.Fingerprint
import PreparedSql.Proofs.Faults
import PreparedSql.Proofs.Literals
import PreparedSql.Proofs.Writing

/-!
# What vectors change

TiDB is written like MySQL and has vectors.  So the two drafts of a node are the same where no
vector is in it, and else the one for MySQL ends at its first vector, unless both end in an error
before (`Draft.Narrows`).  One draft after the other keeps this, and so does a list of drafts.

* `tidb_extends_mysql`: what MySQL takes, TiDB takes with the same text and slots; what TiDB takes
  beside it has a vector, which is what MySQL says is wrong.
* `hashInput_mysql_ne_tidb`: the two names differ in their first byte, so what is hashed for a key
  of one dialect is never what is hashed for the other, whatever follows.
-/

namespace PreparedSql

/-! ### Nodes with a vector -/

/-- The cell is a vector, or an array with one. -/
def Cell.HasVector : Cell → Prop
  | .literal v         => v.kind = .vector
  | .array vs          => ∃ v ∈ vs, v.kind = .vector
  | .slot _ | .column _ => False

/-- The node is a vector, an array with one, or a statement with such a cell. -/
def Node.HasVector : Node → Prop
  | .literal v                      => v.kind = .vector
  | .array vs                       => ∃ v ∈ vs, v.kind = .vector
  | .insert s                       => ∃ row ∈ s.rows, ∃ cell ∈ row, cell.HasVector
  | .table _ | .column _ | .slot _  => False

namespace Draft

/-! ### Drafts with and without vectors -/

/-- Draft `a` is written where vectors are refused and `b` where they are taken; `p` says that a
vector is in what they are drafts of. -/
inductive Narrows (p : Prop) : Draft → Draft → Prop where
  | same {a : Draft} (h : ¬ p) : Narrows p a a
  | refused {a b : Draft} (h : p) (fault : a.fault = some (.vectorUnsupported .mysql)) :
      Narrows p a b
  | failed {a b : Draft} (ha : ¬ a.Complete) (hb : ¬ b.Complete) : Narrows p a b

theorem fault_append (a b : Draft) : (a ++ b).fault = a.fault.or b.fault := by
  show (a.append b).fault = _
  unfold append
  cases h : a.fault with
  | none => rfl
  | some f => simp [h]

namespace Narrows

variable {p q : Prop} {a a' b b' : Draft}

theorem congr (h : Narrows p a b) (e : p ↔ q) : Narrows q a b := by
  cases h with
  | same h => exact .same fun hq => h (e.2 hq)
  | refused h fault => exact .refused (e.1 h) fault
  | failed ha hb => exact .failed ha hb

/-- One after the other. What is refused or fails first decides. -/
theorem append (h : Narrows p a b) (h' : Narrows q a' b') :
    Narrows (p ∨ q) (a ++ a') (b ++ b') := by
  cases h with
  | refused h fault => exact .refused (.inl h) (by simp [fault_append, fault])
  | failed ha hb => exact .failed (by simp [ha]) (by simp [hb])
  | same h =>
      cases h' with
      | same h' => exact .same (not_or.2 ⟨h, h'⟩)
      | failed ha hb => exact .failed (by simp [ha]) (by simp [hb])
      | refused h' fault =>
          by_cases complete : a.Complete
          · have none : a.fault = none := complete
            exact .refused (.inr h') (by rw [fault_append, none, Option.none_or, fault])
          · exact .failed (by simp [complete]) (by simp [complete])

/-- The same draft with a vector in neither. -/
theorem refl (a : Draft) : Narrows False a a := .same id

theorem same_append (h : Narrows p a b) (c : Draft) : Narrows p (c ++ a) (c ++ b) :=
  ((refl c).append h).congr (by simp)

theorem append_same (h : Narrows p a b) (c : Draft) : Narrows p (a ++ c) (b ++ c) :=
  (h.append (refl c)).congr (by simp)

/-- The narrow one is complete where the other is and no vector is in it. -/
theorem complete_iff (h : Narrows p a b) : a.Complete ↔ b.Complete ∧ ¬ p := by
  cases h with
  | same h => simp [h]
  | refused h fault => simp [h, Complete, fault]
  | failed ha hb => simp [ha, hb]

theorem eq_of_complete (h : Narrows p a b) (complete : a.Complete) : a = b := by
  cases h with
  | same _ => rfl
  | refused _ fault => exact absurd (fault.symm.trans complete) (by simp)
  | failed ha _ => exact absurd complete ha

/-- What is wrong with the narrow one alone is a vector. -/
theorem fault_eq (h : Narrows p a b) {fault : RenderError} (ha : a.fault = some fault)
    (hb : b.Complete) : p ∧ fault = .vectorUnsupported .mysql := by
  cases h with
  | same _ => exact absurd (ha.symm.trans hb) (by simp)
  | refused h fault' => exact ⟨h, Option.some.inj (ha.symm.trans fault')⟩
  | failed _ hb' => exact absurd hb hb'

section

variable {α : Type} {p : α → Prop} {f g : α → Draft}

theorem others (h : ∀ x, Narrows (p x) (f x) (g x)) (xs : List α) :
    Narrows (∃ x ∈ xs, p x) (Draft.others (xs.map f)) (Draft.others (xs.map g)) := by
  induction xs with
  | nil => exact .same (by simp)
  | cons x xs ih => exact (((h x).append ih).same_append (text ", ")).congr (by simp)

theorem separated (h : ∀ x, Narrows (p x) (f x) (g x)) (xs : List α) :
    Narrows (∃ x ∈ xs, p x) (Draft.separated ", " (xs.map f))
      (Draft.separated ", " (xs.map g)) := by
  cases xs with
  | nil => exact .same (by simp)
  | cons x xs =>
      rw [List.map_cons, List.map_cons, separated_cons, separated_cons]
      exact ((h x).append (others h xs)).congr (by simp)

/-- A list has a vector where a member has one. -/
theorem list (h : ∀ x, Narrows (p x) (f x) (g x)) (xs : List α) :
    Narrows (∃ x ∈ xs, p x) (Draft.list (xs.map f)) (Draft.list (xs.map g)) :=
  ((separated h xs).append_same (text ")")).same_append (text "(")

end

end Narrows

/-! ### One node in the two dialects -/

theorem narrows_ofValue (v : Value) :
    Narrows (v.kind = .vector) (ofValue .mysql v) (ofValue .tidb v) := by
  have literal : Dialect.literal .mysql v = Dialect.literal .tidb v := rfl
  by_cases h : v.kind = .vector
  · exact .refused h (by simp [ofValue, isVector_eq, h, Dialect.supportsVector, fail])
  · simp only [ofValue, isVector_eq, h, literal, decide_false, Bool.false_eq_true, false_and,
      if_false]
    exact .same id

theorem narrows_ofArray (vs : List Value) :
    Narrows (∃ v ∈ vs, v.kind = .vector) (ofArray .mysql vs) (ofArray .tidb vs) := by
  cases vs with
  | nil => exact .same (by simp)
  | cons v vs => exact .list narrows_ofValue (v :: vs)

theorem narrows_ofCell (cell : Cell) :
    Narrows cell.HasVector (ofCell .mysql cell) (ofCell .tidb cell) := by
  cases cell with
  | literal v => exact narrows_ofValue v
  | slot s => exact .refl _
  | array vs => exact narrows_ofArray vs
  | column name => exact .refl _

theorem narrows_insertBody (s : Insert) :
    Narrows (∃ row ∈ s.rows, ∃ cell ∈ row, cell.HasVector) (insertBody .mysql s)
      (insertBody .tidb s) := by
  have rows := Narrows.separated (fun row : List Cell => Narrows.list narrows_ofCell row) s.rows
  -- names and the words between them are written alike, so only the rows can differ
  exact ((((((rows.append_same (ofReturning .tidb s.returning)).same_append (text " VALUES ")
    ).same_append (list (s.columns.map (ofColumn .tidb)))).same_append (text " ")
    ).same_append (ofTable .tidb s.table)).same_append (text "INSERT INTO "))

/-- The same is against a statement in both, but for the name of the dialect. -/
theorem fault?_eq_none_iff_tidb (schema : Schema) (s : Insert) :
    s.fault? ⟨.mysql, schema⟩ = none ↔ s.fault? ⟨.tidb, schema⟩ = none := by
  simp only [Insert.fault?_eq_none_iff]
  rfl

theorem narrows_ofInsert (schema : Schema) (s : Insert) :
    Narrows (∃ row ∈ s.rows, ∃ cell ∈ row, cell.HasVector) (ofInsert ⟨.mysql, schema⟩ s)
      (ofInsert ⟨.tidb, schema⟩ s) := by
  by_cases h : s.fault? ⟨.mysql, schema⟩ = none
  · rw [ofInsert_of_fault_none h, ofInsert_of_fault_none ((fault?_eq_none_iff_tidb schema s).1 h)]
    exact narrows_insertBody s
  · refine .failed ?_ ?_ <;> rw [complete_ofInsert_iff]
    · exact fun complete => h complete.1
    · exact fun complete => h ((fault?_eq_none_iff_tidb schema s).2 complete.1)

/-- **What vectors change** in the draft of a node. -/
theorem narrows_ofNode (schema : Schema) (n : Node) :
    Narrows n.HasVector (ofNode ⟨.mysql, schema⟩ n) (ofNode ⟨.tidb, schema⟩ n) := by
  cases n with
  | table t => exact .refl _
  | column name => exact .refl _
  | literal v => exact narrows_ofValue v
  | slot s => exact .refl _
  | array vs => exact narrows_ofArray vs
  | insert s => exact narrows_ofInsert schema s

/-- Bind slots are written alike. -/
theorem chars_mysql_eq_tidb (a : Draft) (k : Nat) : a.chars .mysql k = a.chars .tidb k := by
  have tokens : ∀ (ts : List Token) (k : Nat), tokenChars .mysql k ts = tokenChars .tidb k ts := by
    intro ts
    induction ts with
    | nil => intro k; rfl
    | cons t ts ih =>
        intro k
        rw [tokenChars, tokenChars, ih]
        cases t <;> rfl
  exact tokens a.tokens k

end Draft

/-! ### Keys -/

/-- What is hashed for a key starts with the name of the dialect, and the two names differ in
their first byte. -/
theorem hashInput_mysql_ne_tidb (x y : List Piece) :
    hashInput (.text "dialect:" :: .text Dialect.mysql.name :: x) ≠
      hashInput (.text "dialect:" :: .text Dialect.tidb.name :: y) := by
  intro h
  have bytes : ∀ (name : String) (z : List Piece),
      hashInput (.text "dialect:" :: .text name :: z) =
        (Piece.text "dialect:").bytes ++ ((Piece.text name).bytes ++ hashInput z) := fun _ _ => rfl
  rw [bytes, bytes] at h
  have mysql : (Piece.text Dialect.mysql.name).bytes.head? = some 109 := by decide +kernel
  have tidb : (Piece.text Dialect.tidb.name).bytes.head? = some 116 := by decide +kernel
  have first := congrArg List.head? (List.append_cancel_left h)
  rw [List.head?_append, List.head?_append, mysql, tidb] at first
  simp at first

/-- **TiDB is MySQL with vectors.** MySQL takes a node exactly when TiDB does and no vector is in
it, and then to the same text and slots. Where TiDB takes a node and MySQL does not, a vector is in
it, and that is what MySQL says. No two nodes share what is hashed for their keys. -/
theorem tidb_extends_mysql (schema : Schema) (n : Node) :
    (∀ r, n.render ⟨.mysql, schema⟩ = .ok r ↔
      n.render ⟨.tidb, schema⟩ = .ok r ∧ ¬ n.HasVector) ∧
    (∀ e r, n.render ⟨.mysql, schema⟩ = .error e → n.render ⟨.tidb, schema⟩ = .ok r →
      n.HasVector ∧ e = .render (.vectorUnsupported .mysql)) ∧
    ∀ (m : Node) (t u : Option Destination),
      hashInput (keyPieces .mysql t n) ≠ hashInput (keyPieces .tidb u m) := by
  have narrows := Draft.narrows_ofNode schema n
  refine ⟨fun r => ?_, fun e r hm ht => ?_, fun m t u => hashInput_mysql_ne_tidb _ _⟩
  · rw [Node.render_eq_ok_iff, Node.render_eq_ok_iff, Draft.chars_mysql_eq_tidb]
    constructor
    · rintro ⟨complete, written⟩
      obtain ⟨hb, none⟩ := narrows.complete_iff.1 complete
      exact ⟨⟨hb, narrows.eq_of_complete complete ▸ written⟩, none⟩
    · rintro ⟨⟨hb, written⟩, none⟩
      have complete := narrows.complete_iff.2 ⟨hb, none⟩
      exact ⟨complete, (narrows.eq_of_complete complete).symm ▸ written⟩
  · obtain ⟨complete, -⟩ := Node.render_eq_ok_iff.1 ht
    rw [Node.render_eq] at hm
    cases fault : (Draft.ofNode ⟨.mysql, schema⟩ n).fault with
    | none => simp [fault] at hm
    | some f =>
        obtain ⟨vector, rfl⟩ := narrows.fault_eq fault complete
        rw [fault] at hm
        exact ⟨vector, (Except.error.inj hm).symm⟩

end PreparedSql
