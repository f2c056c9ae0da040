import PreparedSql.CommandLine.Binding
import PreparedSql.Proofs.Hydration

/-!
# What the bindings of a command line bind

Each text binds one slot to one value, and bindings that are accepted hold all of them: a position
is given once, since the positions count up from 1 without a gap, and of the values of a name the
last one counts.

* `inSequence_mem`: values whose positions count up lie at these positions.
* `Bindings.value?_ofTexts`: a slot has the value of the last text that binds it.
-/

namespace PreparedSql

/-- A text is cut at the first occurrence of a character. -/
theorem cutAt?_of_notMem {c : Char} {before : List Char} (h : c ∉ before) (after : List Char) :
    cutAt? [c] (before ++ c :: after) = some (before, after) := by
  induction before with
  | nil => simp [cutAt?, afterStart?]
  | cons x before ih =>
      simp only [List.mem_cons, not_or] at h
      simp [cutAt?, afterStart?, h.1, ih h.2]

/-- Where positions count up from `next`, each value lies at its own. -/
theorem inSequence_mem {next : Nat} {ps : List (UInt64 × Value)} {vs : List Value}
    (h : inSequence next ps = .ok vs) {n : UInt64} {v : Value} (mem : (n, v) ∈ ps) :
    next ≤ n.toNat ∧ vs[n.toNat - next]? = some v := by
  induction ps generalizing next vs with
  | nil => cases mem
  | cons p ps ih =>
      obtain ⟨k, w⟩ := p
      rw [inSequence] at h
      split at h
      · next first =>
          obtain ⟨vs, rest, rfl⟩ := map_eq_ok_iff.1 h
          rcases List.mem_cons.1 mem with here | later
          · obtain ⟨rfl, rfl⟩ := Prod.mk.inj here
            exact ⟨Nat.le_of_eq first.symm, by simp [first]⟩
          · obtain ⟨le, value⟩ := ih rest later
            have behind : n.toNat - next = n.toNat - (next + 1) + 1 := by omega
            refine ⟨by omega, ?_⟩
            rwa [behind, List.getElem?_cons_succ]
      · cases h

/-- The slot that a key stands for: a position if the key is a number, else a name. -/
def slotOfKey (key : List Char) : Slot :=
  match readUInt64? key with
  | some n => .positional n
  | none => .named (String.ofList key)

/-- A key, an equals sign and a literal bind the slot of the key to the literal. -/
theorem readBinding_key {key : List Char} (h : '=' ∉ key) (counted : slotOfKey key ≠ .positional 0)
    (value : String) :
    readBinding (String.ofList (key ++ '=' :: value.toList)) =
      .ok (slotOfKey key, .ofText value) := by
  rw [readBinding, String.toList_ofList, cutAt?_of_notMem h]
  simp only [String.ofList_toList]
  rw [slotOfKey] at counted ⊢
  cases place : readUInt64? key with
  | none => rfl
  | some n =>
      rw [place] at counted
      exact if_neg fun zero => counted (congrArg Slot.positional zero)

/-- No text binds position 0. -/
theorem readBinding_ne_zero {text : String} {v : Value} :
    readBinding text ≠ .ok (.positional 0, v) := by
  intro read
  rw [readBinding] at read
  split at read
  · cases read
  · split at read
    · split at read
      · cases read
      · next zero => cases read; exact zero rfl
    · cases read

/-- Bindings of names alone are accepted. -/
theorem Bindings.ofTexts_of_names {texts : List String} {bs : List (Slot × Value)}
    (all : texts.mapM readBinding = .ok bs) (names : positionalOnes bs = []) :
    Bindings.ofTexts texts = .ok (.ofLists [] (namedOnes bs)) := by
  rw [ofTexts, all]
  show (inSequence 1 ((positionalOnes bs).mergeSort _) >>= _) = _
  rw [names, List.mergeSort_nil]
  rfl

/-- A text that binds a slot is among the texts that the bindings come from. -/
theorem exists_text_of_mem {texts : List String} {bs : List (Slot × Value)}
    (h : List.Forall₂ (fun t p => readBinding t = .ok p) texts bs) {p : Slot × Value}
    (mem : p ∈ bs) : ∃ t ∈ texts, readBinding t = .ok p := by
  induction h with
  | nil => cases mem
  | cons head _ ih =>
      rcases List.mem_cons.1 mem with rfl | later
      · exact ⟨_, List.mem_cons_self, head⟩
      · obtain ⟨t, ht, read⟩ := ih later
        exact ⟨t, List.mem_cons_of_mem _ ht, read⟩

/-- Of the values of a name the last one counts. -/
theorem get?_namedOnes {name : String} {v : Value} {front back : List (Slot × Value)}
    (last : ∀ u, (Slot.named name, u) ∉ back) :
    (Store.ofList (namedOnes (front ++ (.named name, v) :: back))).get? name = some v := by
  have behind : ∀ e ∈ (namedOnes back).reverse, ¬ decide (e.1 = name) = true := by
    rintro ⟨other, u⟩ he same
    obtain ⟨⟨s, w⟩, hs, entry⟩ := List.mem_filterMap.1 (List.mem_reverse.1 he)
    cases s with
    | positional n => cases entry
    | named k =>
        obtain ⟨rfl, rfl⟩ := Prod.mk.inj (Option.some.inj entry)
        exact last w (of_decide_eq_true same ▸ hs)
  have parts : namedOnes (front ++ (.named name, v) :: back) =
      namedOnes front ++ (name, v) :: namedOnes back := by
    simp [namedOnes]
  rw [Store.get?_ofList, parts, List.reverse_append, List.reverse_cons, List.append_assoc,
    List.find?_append, List.find?_eq_none.2 behind]
  simp

/-- **A slot has the value of the last text that binds it**, where the bindings are accepted. -/
theorem Bindings.value?_ofTexts {before after : List String} {text : String} {s : Slot} {v : Value}
    (read : readBinding text = .ok (s, v)) (last : ∀ t ∈ after, ∀ u, readBinding t ≠ .ok (s, u))
    {b : Bindings} (accepted : Bindings.ofTexts (before ++ text :: after) = .ok b) :
    b.value? s = some v := by
  obtain ⟨bs, all, h⟩ := bind_eq_ok_iff.1 accepted
  obtain ⟨positional, ordered, made⟩ := bind_eq_ok_iff.1 h
  obtain rfl := Except.ok.inj made
  rw [List.mapM_append] at all
  obtain ⟨front, -, all⟩ := bind_eq_ok_iff.1 all
  obtain ⟨rest, texts, joined⟩ := bind_eq_ok_iff.1 all
  obtain rfl := Except.ok.inj joined
  obtain ⟨_, back, one, others, rfl⟩ := List.forall₂_cons_left_iff.1 (mapM_eq_ok_iff.1 texts)
  obtain rfl := Except.ok.inj (read.symm.trans one)
  cases s with
  | named name =>
      refine get?_namedOnes fun u hu => ?_
      obtain ⟨t, ht, again⟩ := exists_text_of_mem others hu
      exact last t ht u again
  | positional n =>
      have mem : (n, v) ∈ positionalOnes (front ++ (.positional n, v) :: back) := by
        simp [positionalOnes]
      obtain ⟨-, value⟩ := inSequence_mem ordered (List.mem_mergeSort.2 mem)
      have counted : n ≠ 0 := by
        rintro rfl
        exact readBinding_ne_zero read
      rw [value?, if_neg counted]
      exact value

end PreparedSql
