import Mathlib.Data.List.Forall2
import PreparedSql.Fingerprint
import PreparedSql.Proofs.Literals
import PreparedSql.Proofs.Writing

/-!
# What the pieces of a statement tell

The pieces that a key is hashed from are cut at places that they tell themselves: lists have their
length in front, and cells a tag.  So equal pieces are equal part by part (`Tells`).  What they
tell of a cell is the draft it is written as (`tells_cellPieces`), and what they tell of a
statement is all of it but one thing (`SameShape`): a table in a schema with the empty name has the
pieces of a table without a schema.

* `Insert.sameShape_of_pieces_eq`: what equal pieces say of two statements.
* `sameOutcome_iff`: such statements for one table have one outcome; for two tables they have one
  only where both fail.
* `not_piecesTellOutcome`: so the pieces alone do not tell the outcome.
-/

namespace PreparedSql

/-! ### Pieces that tell where they end -/

section Tells

variable {α : Type} {f : α → List Piece} {R : α → α → Prop}

/-- The pieces of a member tell where they end, and which member it is up to `R`. -/
def Tells (f : α → List Piece) (R : α → α → Prop) : Prop :=
  ∀ {a b : α} {x y : List Piece}, f a ++ x = f b ++ y → R a b ∧ x = y

/-- Lists of one length are told member by member. -/
theorem Tells.flatMap (hf : Tells f R) : ∀ {as bs : List α} {x y : List Piece},
    as.length = bs.length → as.flatMap f ++ x = bs.flatMap f ++ y →
      List.Forall₂ R as bs ∧ x = y := by
  intro as
  induction as with
  | nil =>
      intro bs x y hl h
      rw [List.eq_nil_of_length_eq_zero hl.symm] at h ⊢
      exact ⟨.nil, h⟩
  | cons a as ih =>
      intro bs x y hl h
      cases bs with
      | nil => cases hl
      | cons b bs =>
          simp only [List.flatMap_cons, List.append_assoc] at h
          obtain ⟨hab, h⟩ := hf h
          obtain ⟨habs, h⟩ := ih (Nat.succ.inj hl) h
          exact ⟨.cons hab habs, h⟩

/-- A list with its length in front is told member by member. -/
theorem Tells.counted (hf : Tells f R) :
    Tells (fun as => .count as.length :: as.flatMap f) (List.Forall₂ R) := by
  intro as bs x y h
  simp only [List.cons_append, List.cons.injEq, Piece.count.injEq] at h
  exact hf.flatMap h.1 h.2

/-- Where related members have the same image, so have lists of them. -/
theorem map_eq_of_forall₂ {β : Type} (g : α → β) (hg : ∀ a b, R a b → g a = g b)
    {as bs : List α} (h : List.Forall₂ R as bs) : as.map g = bs.map g := by
  induction h with
  | nil => rfl
  | cons hab _ ih => rw [List.map_cons, List.map_cons, hg _ _ hab, ih]

end Tells

/-! ### Cells -/

namespace Node

theorem tells_columnPieces : Tells columnPieces Eq := by
  intro a b x y h
  simpa [columnPieces] using h

/-- A value is told up to its kind and its canonical text. -/
theorem tells_valuePieces : Tells Value.pieces Value.Alike := by
  intro v w x y h
  simp only [Value.pieces, List.cons_append, List.nil_append, List.cons.injEq,
    Piece.text.injEq] at h
  exact ⟨⟨ValueKind.name_injective h.1, h.2.1⟩, h.2.2⟩

theorem tells_arrayPieces : Tells arrayPieces (List.Forall₂ Value.Alike) := by
  intro vs ws x y h
  simp only [arrayPieces, List.cons_append, List.cons.injEq, true_and, Piece.count.injEq] at h
  exact tells_valuePieces.flatMap h.1 h.2

theorem tells_slotPieces : Tells slotPieces Eq := by
  intro s t x y h
  cases s with
  | named m => cases t <;> simp_all [slotPieces]
  | positional m =>
      cases t with
      | named n => simp [slotPieces] at h
      | positional n =>
          simp only [slotPieces, List.cons_append, List.nil_append, List.cons.injEq, true_and,
            Piece.count.injEq] at h
          exact ⟨congrArg Slot.positional (UInt64.toNat_inj.1 h.1), h.2⟩

end Node

/-- Cells that are written alike in every dialect. -/
def Cell.SameDraft (a b : Cell) : Prop := ∀ d, Draft.ofCell d a = Draft.ofCell d b

theorem Draft.ofArray_congr {vs ws : List Value} (h : List.Forall₂ Value.Alike vs ws)
    (d : Dialect) : ofArray d vs = ofArray d ws := by
  have same : vs.map (ofValue d) = ws.map (ofValue d) :=
    map_eq_of_forall₂ (ofValue d) (fun _ _ hvw => ofValue_congr hvw d) h
  cases h with
  | nil => rfl
  | cons _ _ => simp only [ofArray, same, List.isEmpty_cons]

namespace Node

/-- **What the pieces tell of a cell** is the draft it is written as.  The tag tells which kind of
cell it is. -/
theorem tells_cellPieces : Tells cellPieces Cell.SameDraft := by
  intro a b x y h
  cases a <;> cases b
  case literal.literal v w =>
    simp only [cellPieces, literalPieces, List.cons_append, List.cons.injEq, true_and] at h
    obtain ⟨hvw, hxy⟩ := tells_valuePieces h
    exact ⟨Draft.ofValue_congr hvw, hxy⟩
  case slot.slot s t =>
    obtain ⟨rfl, hxy⟩ := tells_slotPieces h
    exact ⟨fun _ => rfl, hxy⟩
  case array.array vs ws =>
    obtain ⟨hvw, hxy⟩ := tells_arrayPieces h
    exact ⟨Draft.ofArray_congr hvw, hxy⟩
  case column.column m n =>
    obtain ⟨rfl, hxy⟩ := tells_columnPieces h
    exact ⟨fun _ => rfl, hxy⟩
  -- cells of two kinds have two tags
  case slot.literal s _ | slot.array s _ | slot.column s _ =>
    cases s <;> simp [cellPieces, slotPieces, literalPieces, arrayPieces, columnPieces] at h
  case literal.slot s | array.slot s | column.slot s =>
    cases s <;> simp [cellPieces, slotPieces, literalPieces, arrayPieces, columnPieces] at h
  all_goals simp [cellPieces, literalPieces, arrayPieces, columnPieces] at h

theorem tells_rowPieces : Tells rowPieces (List.Forall₂ Cell.SameDraft) :=
  tells_cellPieces.counted

end Node

/-! ### Statements -/

/-- All that the pieces of two statements have in common: cells are the same up to what they are
written as, and no schema is the same as one with the empty name. -/
structure Insert.SameShape (s t : Insert) : Prop where
  schema    : s.table.schema.getD "" = t.table.schema.getD ""
  name      : s.table.name = t.table.name
  columns   : s.columns = t.columns
  rows      : List.Forall₂ (List.Forall₂ Cell.SameDraft) s.rows t.rows
  returning : s.returning = t.returning

/-- **What the pieces tell of a statement.** -/
theorem Insert.sameShape_of_pieces_eq {s t : Insert}
    (h : (Node.insert s).pieces = (Node.insert t).pieces) : s.SameShape t := by
  have tells := h
  simp only [Node.pieces, Node.insertPieces, Node.tablePieces, List.cons_append, List.nil_append,
    List.cons.injEq, true_and, Piece.text.injEq, Piece.count.injEq] at tells
  obtain ⟨schema, name, hcolumns, h⟩ := tells
  obtain ⟨columns, h⟩ := Node.tells_columnPieces.flatMap hcolumns h
  simp only [List.cons.injEq, Piece.count.injEq] at h
  obtain ⟨rows, h⟩ := Node.tells_rowPieces.flatMap h.1 h.2
  simp only [List.cons.injEq, true_and, Piece.count.injEq] at h
  have returning := Node.tells_columnPieces.flatMap (x := []) (y := []) h.1 (by simpa using h.2)
  rw [List.forall₂_eq_eq_eq] at columns returning
  exact ⟨schema, name, columns, rows, returning.1⟩

/-- Tables with the same pieces are equal, or one has no schema and the other one with the empty
name. -/
theorem Table.eq_or_of_getD_eq {t u : Table} (hs : t.schema.getD "" = u.schema.getD "")
    (hn : t.name = u.name) :
    t = u ∨ t.schema = none ∧ u.schema = some "" ∨ t.schema = some "" ∧ u.schema = none := by
  obtain ⟨ts, tn⟩ := t
  obtain ⟨us, un⟩ := u
  cases hn
  cases ts <;> cases us <;> simp_all

namespace Insert.SameShape

variable {s t : Insert}

/-- Whether the rows are as wide as they should be does not depend on what is in their cells. -/
theorem wrongWidth?_congr {R : Cell → Cell → Prop} {rows rows' : List (List Cell)}
    (h : List.Forall₂ (List.Forall₂ R) rows rows') (width : Nat) : ∀ index,
    wrongWidth? width index rows = wrongWidth? width index rows' := by
  induction h with
  | nil => intro index; rfl
  | cons hrow _ ih => intro index; simp only [wrongWidth?, hrow.length_eq, ih]

/-- Statements of one shape for one table have the same against them. -/
theorem fault?_eq (h : s.SameShape t) (ht : s.table = t.table) (c : Context) :
    s.fault? c = t.fault? c := by
  have empty : s.rows.isEmpty = t.rows.isEmpty := by
    rw [Bool.eq_iff_iff, List.isEmpty_iff_length_eq_zero, List.isEmpty_iff_length_eq_zero,
      h.rows.length_eq]
  have shape : s.shapeFault? = t.shapeFault? := by
    simp only [Insert.shapeFault?, ht, h.columns, empty, wrongWidth?_congr h.rows]
  simp only [Insert.fault?, Insert.unknownColumn?, shape, ht, h.columns, h.returning]

/-- Their rows are written alike. -/
theorem map_row_eq (h : s.SameShape t) (d : Dialect) :
    s.rows.map (fun row => Draft.list (row.map (Draft.ofCell d))) =
      t.rows.map fun row => Draft.list (row.map (Draft.ofCell d)) := by
  refine map_eq_of_forall₂ _ (fun row row' hrow => ?_) h.rows
  rw [map_eq_of_forall₂ (Draft.ofCell d) (fun _ _ hab => hab d) hrow]

end Insert.SameShape

/-- What a statement is written as after the name of its table. -/
def Draft.afterTable (d : Dialect) (s : Insert) : Draft :=
  text " " ++ (list (s.columns.map (ofColumn d)) ++
    (text " VALUES " ++ (separated ", " (s.rows.map fun row => list (row.map (ofCell d))) ++
      ofReturning d s.returning)))

theorem Draft.insertBody_eq (d : Dialect) (s : Insert) :
    insertBody d s = text "INSERT INTO " ++ (ofTable d s.table ++ afterTable d s) := rfl

theorem Insert.SameShape.afterTable_eq {s t : Insert} (h : s.SameShape t) (d : Dialect) :
    Draft.afterTable d s = Draft.afterTable d t := by
  simp only [Draft.afterTable, h.columns, h.returning, h.map_row_eq d]

/-! ### Outcomes -/

/-- Statements with equal pieces for one table are rendered alike, errors included. -/
theorem Insert.SameShape.render_eq {s t : Insert} (h : s.SameShape t) (ht : s.table = t.table)
    (c : Context) : (Node.insert s).render c = (Node.insert t).render c := by
  have draft : Draft.ofInsert c s = Draft.ofInsert c t := by
    simp only [Draft.ofInsert, Draft.insertBody_eq, h.fault?_eq ht c, h.afterTable_eq, ht]
  rw [Node.render_eq, Node.render_eq]
  simp only [Draft.ofNode, draft]

/-- A table without a schema is not written like one in a schema with the empty name. -/
theorem Table.eq_of_chars_eq {t u : Table} (d : Dialect) (hs : t.schema.getD "" = u.schema.getD "")
    (hn : t.name = u.name) (h : (Draft.ofTable d t).chars d 0 = (Draft.ofTable d u).chars d 0) :
    t = u := by
  have length := congrArg List.length h
  rcases t.eq_or_of_getD_eq hs hn with e | ⟨ht, hu⟩ | ⟨ht, hu⟩
  · exact e
  -- the empty name and its point are three characters
  · simp [Draft.ofTable, ht, hu, hn, Draft.chars_text_append, Dialect.quoteIdentifier] at length
  · simp [Draft.ofTable, ht, hu, hn, Draft.chars_text_append, Dialect.quoteIdentifier] at length
    omega

/-- Where statements of one shape are rendered to the same text, their tables are equal. -/
theorem Insert.SameShape.table_eq {s t : Insert} (h : s.SameShape t) {c : Context} {r : Rendering}
    (hs : (Node.insert s).render c = .ok r) (ht : (Node.insert t).render c = .ok r) :
    s.table = t.table := by
  obtain ⟨-, -, es, -⟩ := Node.render_insert_eq_ok_iff.1 hs
  obtain ⟨-, -, et, -⟩ := Node.render_insert_eq_ok_iff.1 ht
  have chars := es.symm.trans et
  rw [Draft.insertBody_eq, Draft.insertBody_eq, Draft.chars_text_append, Draft.chars_text_append,
    Draft.chars_append (Draft.complete_ofTable _ _),
    Draft.chars_append (Draft.complete_ofTable _ _), Draft.slots_ofTable, Draft.slots_ofTable,
    h.afterTable_eq] at chars
  exact Table.eq_of_chars_eq c.dialect h.schema h.name
    (List.append_cancel_right (List.append_cancel_left chars))

/-- Both fail, or both give the same text and slots. -/
def SameOutcome : Except Error Rendering → Except Error Rendering → Prop
  | .ok r, .ok r' => r = r'
  | .error _, .error _ => True
  | _, _ => False

theorem sameOutcome_refl (x : Except Error Rendering) : SameOutcome x x := by
  cases x <;> simp [SameOutcome]

theorem sameOutcome_iff_of_ne {x y : Except Error Rendering} (h : ∀ r, x = .ok r → y ≠ .ok r) :
    SameOutcome x y ↔ (∃ e, x = .error e) ∧ ∃ e, y = .error e := by
  cases x with
  | error e => cases y <;> simp [SameOutcome]
  | ok r =>
      cases y with
      | error e => simp [SameOutcome]
      | ok r' => simpa [SameOutcome] using fun e : r = r' => h r rfl (by rw [e])

/-- The statement with one slot, for a table `t`. -/
def unqualified : Insert := ⟨⟨none, "t"⟩, ["id"], [[.slot (.positional 1)]], []⟩

/-- The same for the table that `.t` names. -/
def emptyQualified : Insert := { unqualified with table := .ofString ".t" }

theorem keyPieces_emptyQualified :
    keyPieces .postgres none (.insert unqualified) =
      keyPieces .postgres none (.insert emptyQualified) := rfl

/-- **What the pieces of a key tell of the outcome.**  Statements with equal pieces are for one
table, and then rendered alike in every context, or for two tables that differ in having no schema
and having one with the empty name.  Such statements have one outcome only where both fail. -/
theorem sameOutcome_iff (c : Context) (s t : Insert)
    (h : keyPieces c.dialect none (.insert s) = keyPieces c.dialect none (.insert t)) :
    (s.table = t.table ∨ s.table.schema = none ∧ t.table.schema = some "" ∨
      s.table.schema = some "" ∧ t.table.schema = none) ∧
    (s.table = t.table → (Node.insert s).render c = (Node.insert t).render c) ∧
    (SameOutcome ((Node.insert s).render c) ((Node.insert t).render c) ↔
      s.table = t.table ∨
        (∃ e, (Node.insert s).render c = .error e) ∧ ∃ e, (Node.insert t).render c = .error e) := by
  have shape : s.SameShape t := Insert.sameShape_of_pieces_eq (by simpa [keyPieces] using h)
  refine ⟨Table.eq_or_of_getD_eq shape.schema shape.name, fun ht => shape.render_eq ht c, ?_⟩
  by_cases ht : s.table = t.table
  · simp [ht, shape.render_eq ht c, sameOutcome_refl]
  · rw [sameOutcome_iff_of_ne fun r hr hr' => ht (shape.table_eq hr hr')]
    simp [ht]

theorem emptyQualified_sameOutcome_iff :
    keyPieces .postgres none (.insert unqualified) =
        keyPieces .postgres none (.insert emptyQualified) ∧
      ¬ SameOutcome ((Node.insert unqualified).render {})
        ((Node.insert emptyQualified).render {}) := by
  obtain ⟨-, -, outcome⟩ := sameOutcome_iff {} unqualified emptyQualified keyPieces_emptyQualified
  refine ⟨keyPieces_emptyQualified, fun h => ?_⟩
  rcases outcome.1 h with ht | ⟨⟨e, he⟩, -⟩
  · exact absurd ht (by decide)
  · cases he

/-- **The pieces tell the outcome**: statements with equal pieces have one outcome in each context.
It does not hold (`not_piecesTellOutcome`). -/
def PiecesTellOutcome : Prop :=
  ∀ (c : Context) (s t : Insert),
    keyPieces c.dialect none (.insert s) = keyPieces c.dialect none (.insert t) →
    SameOutcome ((Node.insert s).render c) ((Node.insert t).render c)

/-- The two statements share their pieces and are written as different text. -/
theorem not_piecesTellOutcome : ¬ PiecesTellOutcome := by
  intro h
  have same : (⟨"INSERT INTO \"t\" (\"id\") VALUES ($1)", [.positional 1]⟩ : Rendering) =
      ⟨"INSERT INTO \"\".\"t\" (\"id\") VALUES ($1)", [.positional 1]⟩ :=
    h {} unqualified emptyQualified keyPieces_emptyQualified
  exact absurd same (by decide)

end PreparedSql
