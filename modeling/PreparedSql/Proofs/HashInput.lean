import Mathlib.Data.List.Induction
import PreparedSql.Proofs.Boundaries
import PreparedSql.Proofs.Shape

/-!
# What the hashed bytes tell

A text is hashed as its UTF-8 bytes with the byte `0xFF` behind them.  No UTF-8 text has that byte,
so a text can be read off the front of what is hashed.  A count is hashed as eight bytes, which may
be any.

* `Piece.text_bytes_append_inj`: a text is told from the front.
* `array_hashInput_eq_iff`: two arrays have the same bytes exactly where their values are alike one
  by one, and then they are written alike.

A slot is a tag and then a name or a count, so what is hashed does not say which of the two it is.
It can be told from the back where the last byte of a count is not the one that ends a name.

* `slots_hashInput_eq_iff`: lists of slots with such positions have the same bytes only if they are
  equal.
* `not_slotsToldApart`: a name of seven bytes and a position may have the same bytes.
-/

namespace PreparedSql

/-! ### UTF-8 -/

theorem toList_loop (bs : ByteArray) (i : Nat) (read : List UInt8) :
    ByteArray.toList.loop bs i read = read.reverse ++ bs.data.toList.drop i := by
  fun_induction ByteArray.toList.loop bs i read with
  | case1 i read inside ih =>
      have place : i < bs.data.toList.length := by simpa using inside
      rw [ih, List.drop_eq_getElem_cons place]
      simp [ByteArray.get!, inside]
  | case2 i read outside =>
      have past : bs.data.toList.length ≤ i := by simpa using Nat.le_of_not_lt outside
      rw [List.drop_eq_nil_of_le past, List.append_nil]

/-- The bytes of a text are those of its characters, one after the other. -/
theorem toList_toUTF8 (s : String) : s.toUTF8.toList = s.toList.flatMap String.utf8EncodeChar := by
  have bytes : s.toUTF8 = (s.toList.flatMap String.utf8EncodeChar).toByteArray := by
    rw [String.toUTF8_eq_toByteArray, ← String.utf8Encode_toList, List.utf8Encode]
  rw [bytes, ByteArray.toList, toList_loop, List.toList_data_toByteArray]
  rfl

theorem eq_of_toUTF8_eq {s t : String} (h : s.toUTF8.toList = t.toUTF8.toList) : s = t := by
  rw [toList_toUTF8, toList_toUTF8] at h
  refine String.toByteArray_inj.1 ?_
  rw [← String.utf8Encode_toList, ← String.utf8Encode_toList, List.utf8Encode, List.utf8Encode, h]

theorem ff_ne_ofNat {n : Nat} (h : n < 0xFF) : (0xFF : UInt8) ≠ UInt8.ofNat n := by
  intro e
  have same : 0xFF = n := by
    simpa [Nat.mod_eq_of_lt (Nat.lt_succ_of_lt h)] using congrArg UInt8.toNat e
  omega

theorem ff_notMem_utf8EncodeChar (c : Char) : 0xFF ∉ String.utf8EncodeChar c := by
  fun_cases String.utf8EncodeChar c <;>
    simp only [List.mem_cons, List.not_mem_nil, or_false, not_or]
  · exact ff_ne_ofNat (by omega)
  · exact ⟨ff_ne_ofNat (by omega), ff_ne_ofNat (by omega)⟩
  · exact ⟨ff_ne_ofNat (by omega), ff_ne_ofNat (by omega), ff_ne_ofNat (by omega)⟩
  · exact ⟨ff_ne_ofNat (by omega), ff_ne_ofNat (by omega), ff_ne_ofNat (by omega),
      ff_ne_ofNat (by omega)⟩

/-- No text has the byte that is hashed behind it. -/
theorem ff_notMem_toUTF8 (s : String) : 0xFF ∉ s.toUTF8.toList := by
  rw [toList_toUTF8, List.mem_flatMap]
  rintro ⟨c, -, h⟩
  exact ff_notMem_utf8EncodeChar c h

/-! ### Counts -/

theorem length_littleEndianBytes (width : Nat) :
    ∀ n, (littleEndianBytes width n).length = width := by
  induction width with
  | zero => exact fun _ => rfl
  | succ width ih => exact fun n => congrArg (· + 1) (ih (n / 256))

theorem littleEndianBytes_succ (width : Nat) : ∀ n, littleEndianBytes (width + 1) n =
    littleEndianBytes width n ++ [UInt8.ofNat (n / 256 ^ width)] := by
  induction width with
  | zero => intro n; simp [littleEndianBytes]
  | succ width ih =>
      intro n
      rw [littleEndianBytes, ih, Nat.div_div_eq_div_mul, ← Nat.pow_succ', littleEndianBytes,
        List.cons_append]

theorem eq_of_littleEndianBytes_eq {width : Nat} : ∀ {m n : Nat}, m < 256 ^ width →
    n < 256 ^ width → littleEndianBytes width m = littleEndianBytes width n → m = n := by
  induction width with
  | zero => intro m n hm hn _; omega
  | succ width ih =>
      intro m n hm hn h
      simp only [littleEndianBytes, List.cons.injEq] at h
      have low : m % 256 = n % 256 := by simpa using congrArg UInt8.toNat h.1
      have high : m / 256 = n / 256 := by
        have quotient : ∀ {k : Nat}, k < 256 ^ (width + 1) → k / 256 < 256 ^ width := fun hk => by
          rwa [Nat.div_lt_iff_lt_mul (by decide), ← Nat.pow_succ]
        exact ih (quotient hm) (quotient hn) h.2
      omega

/-! ### Arrays -/

theorem hashInput_cons (p : Piece) (ps : List Piece) :
    hashInput (p :: ps) = p.bytes ++ hashInput ps := rfl

theorem hashInput_append (ps qs : List Piece) :
    hashInput (ps ++ qs) = hashInput ps ++ hashInput qs := List.flatMap_append

/-- **A text is told from the front** of what is hashed. -/
theorem Piece.text_bytes_append_inj {s t : String} {x y : List UInt8}
    (h : (Piece.text s).bytes ++ x = (Piece.text t).bytes ++ y) : s = t ∧ x = y := by
  simp only [bytes, List.append_assoc, List.singleton_append] at h
  obtain ⟨same, rest⟩ :=
    append_cons_inj_of_notMem_left (ff_notMem_toUTF8 s) (ff_notMem_toUTF8 t) h
  exact ⟨eq_of_toUTF8_eq same, rest⟩

theorem Piece.text_bytes_ne_nil (s : String) : (Piece.text s).bytes ≠ [] := by simp [bytes]

/-- Values are told one by one, up to their kinds and canonical texts. -/
theorem alike_of_hashInput_eq : ∀ {vs ws : List Value},
    hashInput (vs.flatMap Value.pieces) = hashInput (ws.flatMap Value.pieces) →
      List.Forall₂ Value.Alike vs ws
  | [], [], _ => .nil
  | [], w :: ws, h => absurd (List.append_eq_nil_iff.1 h.symm).1 (Piece.text_bytes_ne_nil _)
  | v :: vs, [], h => absurd (List.append_eq_nil_iff.1 h).1 (Piece.text_bytes_ne_nil _)
  | v :: vs, w :: ws, h => by
      obtain ⟨kind, h⟩ := Piece.text_bytes_append_inj h
      obtain ⟨text, h⟩ := Piece.text_bytes_append_inj h
      exact .cons ⟨ValueKind.name_injective kind, text⟩ (alike_of_hashInput_eq h)

/-- Arrays of values that are alike have the same pieces. -/
theorem arrayPieces_eq {vs ws : List Value} (h : List.Forall₂ Value.Alike vs ws) :
    Node.arrayPieces vs = Node.arrayPieces ws := by
  have pieces : vs.map Value.pieces = ws.map Value.pieces := by
    refine map_eq_of_forall₂ _ (fun v w same => ?_) h
    rw [Value.pieces, Value.pieces, same.kind, same.text]
  rw [Node.arrayPieces, Node.arrayPieces, h.length_eq, List.flatMap_def, List.flatMap_def, pieces]

/-- The values of an array are told one by one. -/
theorem alike_of_hashInput_arrayPieces_eq {vs ws : List Value}
    (h : hashInput (Node.arrayPieces vs) = hashInput (Node.arrayPieces ws)) :
    List.Forall₂ Value.Alike vs ws := by
  obtain ⟨-, counted⟩ := Piece.text_bytes_append_inj h
  -- The counts are only passed over: the texts of the values say where each of them ends.
  have width : ∀ n, (Piece.count n).bytes.length = 8 := length_littleEndianBytes 8
  obtain ⟨-, values⟩ := List.append_inj counted (by rw [width, width])
  exact alike_of_hashInput_eq values

/-- **What is hashed for an array** is the same for two arrays exactly where they have one length
and values of one kind and one canonical text in the same places.  Then they are written alike in
every context.  So values in another order, if they are others for it, have other bytes. -/
theorem array_hashInput_eq_iff (vs ws : List Value) :
    (hashInput (Node.array vs).pieces = hashInput (Node.array ws).pieces ↔
      List.Forall₂ Value.Alike vs ws) ∧
    (hashInput (Node.array vs).pieces = hashInput (Node.array ws).pieces →
      ∀ c, (Node.array vs).render c = (Node.array ws).render c) ∧
    ∀ us, us.Perm vs → us.map (fun v => (v.kind, v.text)) ≠ vs.map (fun v => (v.kind, v.text)) →
      hashInput (Node.array us).pieces ≠ hashInput (Node.array vs).pieces := by
  refine ⟨⟨alike_of_hashInput_arrayPieces_eq, fun h => congrArg hashInput (arrayPieces_eq h)⟩,
    fun h c => ?_, fun us _ other h => other ?_⟩
  · have draft : Draft.ofArray c.dialect vs = Draft.ofArray c.dialect ws :=
      Draft.ofArray_congr (alike_of_hashInput_arrayPieces_eq h) c.dialect
    rw [Node.render_eq, Node.render_eq]
    simp only [Draft.ofNode, draft]
  · refine map_eq_of_forall₂ _ (fun u v same => ?_) (alike_of_hashInput_arrayPieces_eq h)
    rw [same.kind, same.text]

/-! ### Slots -/

/-- A position below `255 * 2 ^ 56`: the last of its bytes is not the one that ends a name. -/
def Slot.IsLow : Slot → Prop
  | .named _      => True
  | .positional n => n.toNat < 255 * 256 ^ 7

instance : DecidablePred Slot.IsLow
  | .named _      => isTrue trivial
  | .positional n => inferInstanceAs (Decidable (n.toNat < 255 * 256 ^ 7))

/-- What is hashed for a slot behind its tag. -/
def Slot.body : Slot → List UInt8
  | .named name   => name.toUTF8.toList ++ [0xFF]
  | .positional n => littleEndianBytes 8 n.toNat

theorem hashInput_slotPieces (s : Slot) :
    hashInput (Node.slotPieces s) = (Piece.text "param:").bytes ++ s.body := by
  cases s <;> simp [Node.slotPieces, hashInput, Piece.bytes, Slot.body]

/-- What stands behind the last mark of two lists, and what stands in front of it. -/
theorem append_cons_inj_of_notMem_right {α : Type} {q : α} {a b x y : List α} (hx : q ∉ x)
    (hy : q ∉ y) (h : a ++ q :: x = b ++ q :: y) : a = b ∧ x = y := by
  have back : x.reverse ++ q :: a.reverse = y.reverse ++ q :: b.reverse := by
    simpa using congrArg List.reverse h
  obtain ⟨behind, before⟩ :=
    append_cons_inj_of_notMem_left (mt List.mem_reverse.1 hx) (mt List.mem_reverse.1 hy) back
  exact ⟨List.reverse_inj.1 before, List.reverse_inj.1 behind⟩

/-- The last byte of a low position does not end a name. -/
theorem append_body_ne {x y : List UInt8} {name : String} {n : UInt64}
    (low : (Slot.positional n).IsLow) :
    x ++ (Slot.named name).body ≠ y ++ (Slot.positional n).body := by
  intro h
  have top : n.toNat / 256 ^ 7 < 0xFF := Nat.div_lt_of_lt_mul (by rw [Nat.mul_comm]; exact low)
  rw [Slot.body, Slot.body, littleEndianBytes_succ, ← List.append_assoc, ← List.append_assoc] at h
  exact ff_ne_ofNat top (List.singleton_inj.1 (List.append_inj' h rfl).2)

/-- **A slot is told from the back** of what is hashed. -/
theorem hashInput_slotPieces_append_inj {s t : Slot} (hs : s.IsLow) (ht : t.IsLow)
    {x y : List UInt8}
    (h : x ++ hashInput (Node.slotPieces s) = y ++ hashInput (Node.slotPieces t)) :
    x = y ∧ s = t := by
  rw [hashInput_slotPieces, hashInput_slotPieces, ← List.append_assoc, ← List.append_assoc] at h
  cases s with
  | named m =>
      cases t with
      | named n =>
          simp only [Slot.body, Piece.bytes, ← List.append_assoc] at h
          have names := List.append_cancel_right h
          rw [List.append_assoc _ [0xFF], List.append_assoc _ [0xFF]] at names
          obtain ⟨before, same⟩ :=
            append_cons_inj_of_notMem_right (ff_notMem_toUTF8 m) (ff_notMem_toUTF8 n) names
          exact ⟨List.append_cancel_right before, congrArg Slot.named (eq_of_toUTF8_eq same)⟩
      | positional n => exact absurd h (append_body_ne ht)
  | positional m =>
      cases t with
      | named n => exact absurd h.symm (append_body_ne hs)
      | positional n =>
          have width : ∀ k, (littleEndianBytes 8 k).length = 8 := length_littleEndianBytes 8
          obtain ⟨before, same⟩ := List.append_inj' h (by rw [Slot.body, Slot.body, width, width])
          have number := eq_of_littleEndianBytes_eq m.toNat_lt n.toNat_lt same
          exact ⟨List.append_cancel_right before,
            congrArg Slot.positional (UInt64.toNat_inj.1 number)⟩

theorem hashInput_concat (ss : List Slot) (s : Slot) :
    hashInput ((ss ++ [s]).flatMap Node.slotPieces) =
      hashInput (ss.flatMap Node.slotPieces) ++ hashInput (Node.slotPieces s) := by
  rw [List.flatMap_append, hashInput_append, List.flatMap_singleton]

theorem hashInput_concat_ne_nil (ss : List Slot) (s : Slot) :
    hashInput ((ss ++ [s]).flatMap Node.slotPieces) ≠ [] := by
  intro h
  rw [hashInput_concat, hashInput_slotPieces] at h
  exact Piece.text_bytes_ne_nil _ (List.append_eq_nil_iff.1 (List.append_eq_nil_iff.1 h).2).1

/-- Slots with low positions are told one by one, from the last one on. -/
theorem slots_eq_of_hashInput_eq {ss ts : List Slot} (hs : ∀ s ∈ ss, s.IsLow)
    (ht : ∀ t ∈ ts, t.IsLow)
    (h : hashInput (ss.flatMap Node.slotPieces) = hashInput (ts.flatMap Node.slotPieces)) :
    ss = ts := by
  -- From the front it cannot be told how many bytes follow a tag, so the lists are taken apart
  -- from the back.
  induction ss using List.reverseRecOn generalizing ts with
  | nil =>
      cases ts using List.reverseRecOn with
      | nil => rfl
      | append_singleton ts t => exact absurd h.symm (hashInput_concat_ne_nil ts t)
  | append_singleton ss s ih =>
      cases ts using List.reverseRecOn with
      | nil => exact absurd h (hashInput_concat_ne_nil ss s)
      | append_singleton ts t =>
          rw [hashInput_concat, hashInput_concat] at h
          obtain ⟨lowS, last⟩ := List.forall_mem_append.1 hs
          obtain ⟨lowT, last'⟩ := List.forall_mem_append.1 ht
          obtain ⟨front, rfl⟩ := hashInput_slotPieces_append_inj
            (List.forall_mem_singleton.1 last) (List.forall_mem_singleton.1 last') h
          rw [ih lowS lowT front]

/-- **What is hashed for slots** with low positions is the same only for the same slots. -/
theorem slots_hashInput_eq_iff {ss ts : List Slot} (hs : ∀ s ∈ ss, s.IsLow)
    (ht : ∀ t ∈ ts, t.IsLow) :
    hashInput (ss.flatMap Node.slotPieces) = hashInput (ts.flatMap Node.slotPieces) ↔ ss = ts :=
  ⟨slots_eq_of_hashInput_eq hs ht,
    fun same => congrArg (fun us => hashInput (us.flatMap Node.slotPieces)) same⟩

/-- The name that has the first seven bytes of `highPosition`. -/
def sevenLetters : Slot := .named "aaaaaaa"

/-- The eighth byte is the one behind a name. -/
def highPosition : Slot := .positional 0xFF61616161616161

def lowPosition : Slot := .positional 0xFE61616161616161

/-- One bit less, and the position has other bytes than the name. -/
theorem lowPosition_hashInput_ne :
    (∀ s ∈ [sevenLetters], s.IsLow) ∧ (∀ t ∈ [lowPosition], t.IsLow) ∧
      hashInput ([sevenLetters].flatMap Node.slotPieces) ≠
        hashInput ([lowPosition].flatMap Node.slotPieces) := by
  have hs : ∀ s ∈ [sevenLetters], s.IsLow := by decide
  have ht : ∀ t ∈ [lowPosition], t.IsLow := by decide
  exact ⟨hs, ht, fun h => absurd ((slots_hashInput_eq_iff hs ht).1 h) (by decide)⟩

/-- **Slots are told apart** by what is hashed for them: lists of one length with the same bytes are
equal.  It does not hold (`not_slotsToldApart`). -/
def SlotsToldApart : Prop :=
  ∀ ss ts : List Slot, ss.length = ts.length →
    hashInput (ss.flatMap Node.slotPieces) = hashInput (ts.flatMap Node.slotPieces) → ss = ts

theorem hashInput_sevenLetters :
    hashInput (Node.slotPieces sevenLetters) = hashInput (Node.slotPieces highPosition) := by
  decide +kernel

/-- So the key of a query does not tell the name from the position. -/
theorem queryKey_sevenLetters (d : Dialect) (destination : Option Destination) :
    queryKey d destination (.slot sevenLetters) = queryKey d destination (.slot highPosition) := by
  have bytes : hashInput (keyPieces d destination (.slot sevenLetters)) =
      hashInput (keyPieces d destination (.slot highPosition)) := by
    simp only [keyPieces, hashInput_cons, hashInput_append, Node.pieces, hashInput_sevenLetters]
  rw [queryKey, queryKey, hashPieces, hashPieces, bytes]

/-- The seven letters and the position have the same bytes. -/
theorem not_slotsToldApart : ¬ SlotsToldApart := by
  intro h
  have same : [sevenLetters] = [highPosition] :=
    h _ _ rfl (by simpa using hashInput_sevenLetters)
  exact absurd same (by decide)

end PreparedSql
