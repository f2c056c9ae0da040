import PreparedSql.Proofs.BindingTexts
import PreparedSql.Proofs.Placeholders

/-!
# Which bindings are accepted

A binding is cut at its first equals sign into a key and a literal, and a key that is a number is a
position.  The positions of texts that are accepted are the numbers from 1 on, each once.  The texts
may stand in any order, and it is only for the names that the order counts.

* `mapM_readBinding_eq_ok_iff`: which texts are bindings, one by one.
* `inSequence_sorted_eq_ok_iff`: sorted bindings count up if their positions are these numbers.
* `Bindings.resolve_unbound`: a slot that no text binds has no value.
* `accepted_iff_positions`: which texts are accepted, what they give to a slot, and that their order
  does not matter for positions.
-/

namespace PreparedSql

/-! ### Texts -/

/-- What stands before the first equals sign. -/
def keyOf (t : String) : List Char := t.toList.takeWhile (· ≠ '=')

/-- What stands behind the first equals sign. -/
def literalOf (t : String) : String := String.ofList (t.toList.dropWhile (· ≠ '=')).tail

/-- The position that a text binds, if its key is a number. -/
def positionOf? (t : String) : Option UInt64 := readUInt64? (keyOf t)

/-- The positions that texts bind, in the order of the texts. -/
def positionsOf (texts : List String) : List Nat := (texts.filterMap positionOf?).map UInt64.toNat

/-- A key and a literal, and the key is not the number 0. -/
structure IsBinding (t : String) : Prop where
  equalsSign : '=' ∈ t.toList
  counted    : positionOf? t ≠ some 0

/-- The slot and the value that a text writes. -/
def slotAndValue (t : String) : Slot × Value := (slotOfKey (keyOf t), .ofText (literalOf t))

theorem positionOf?_eq_some_iff {t : String} {n : UInt64} :
    positionOf? t = some n ↔ slotOfKey (keyOf t) = .positional n := by
  rw [positionOf?, slotOfKey]
  cases readUInt64? (keyOf t) <;> simp

theorem slotOfKey_of_positionOf?_eq_none {t : String} (h : positionOf? t = none) :
    slotOfKey (keyOf t) = .named (String.ofList (keyOf t)) := by
  rw [positionOf?] at h
  rw [slotOfKey, h]

theorem eq_of_slotOfKey_eq_named {key other : List Char}
    (h : slotOfKey key = .named (String.ofList other)) : key = other := by
  rw [slotOfKey] at h
  split at h
  · cases h
  · exact String.ofList_injective (Slot.named.inj h)

/-- A text is cut at the first occurrence of a character, if it has one. -/
theorem cutAt?_singleton (c : Char) (cs : List Char) :
    cutAt? [c] cs =
      if c ∈ cs then some (cs.takeWhile (· ≠ c), (cs.dropWhile (· ≠ c)).tail) else none := by
  induction cs with
  | nil => rfl
  | cons x cs ih =>
      by_cases h : x = c
      · subst h
        simp [cutAt?, afterStart?]
      · by_cases later : c ∈ cs <;> simp [cutAt?, afterStart?, h, Ne.symm h, ih, later]

theorem readBinding_of_isBinding {t : String} (h : IsBinding t) :
    readBinding t = .ok (slotAndValue t) := by
  rw [readBinding, cutAt?_singleton, if_pos h.equalsSign, slotAndValue]
  cases place : positionOf? t with
  | none =>
      rw [slotOfKey_of_positionOf?_eq_none place]
      simp only [show readUInt64? (t.toList.takeWhile (· ≠ '=')) = none from place]
      rfl
  | some n =>
      have counted : n ≠ 0 := fun zero => h.counted (zero ▸ place)
      rw [positionOf?_eq_some_iff.1 place]
      simp only [show readUInt64? (t.toList.takeWhile (· ≠ '=')) = some n from place,
        if_neg counted]
      rfl

theorem isBinding_of_readBinding {t : String} {p : Slot × Value} (h : readBinding t = .ok p) :
    IsBinding t := by
  rw [readBinding, cutAt?_singleton] at h
  by_cases sign : '=' ∈ t.toList
  · rw [if_pos sign] at h
    refine ⟨sign, fun zero => ?_⟩
    simp only [show readUInt64? (t.toList.takeWhile (· ≠ '=')) = some 0 from zero] at h
    cases h
  · rw [if_neg sign] at h
    cases h

/-- Texts are bindings one by one, whatever the others are. -/
theorem mapM_readBinding_eq_ok_iff {texts : List String} {bs : List (Slot × Value)} :
    texts.mapM readBinding = .ok bs ↔ (∀ t ∈ texts, IsBinding t) ∧ texts.map slotAndValue = bs := by
  have each (t : String) (p : Slot × Value) :
      readBinding t = .ok p ↔ IsBinding t ∧ slotAndValue t = p := by
    refine ⟨fun h => ?_, fun ⟨h, same⟩ => same ▸ readBinding_of_isBinding h⟩
    have binding := isBinding_of_readBinding h
    exact ⟨binding, Except.ok.inj ((readBinding_of_isBinding binding).symm.trans h)⟩
  have map := List.forall₂_map_left_iff (R := Eq) (f := slotAndValue) (l := texts) (u := bs)
  rw [List.forall₂_eq_eq_eq] at map
  simp only [mapM_eq_ok_iff, each, List.forall₂_and_left, map]

/-! ### Positions -/

theorem inSequence_eq_ok_iff {next : Nat} {ps : List (UInt64 × Value)} {vs : List Value} :
    inSequence next ps = .ok vs ↔
      ps.map (fun p => p.1.toNat) = List.range' next ps.length ∧ ps.map Prod.snd = vs := by
  induction ps generalizing next vs with
  | nil => simp [inSequence, pure, Except.pure]
  | cons p ps ih =>
      obtain ⟨n, v⟩ := p
      rw [inSequence, List.map_cons, List.map_cons, List.length_cons, List.range'_succ]
      split
      · next first =>
          rw [map_eq_ok_iff]
          simp only [ih, first, List.cons_eq_cons, true_and]
          constructor
          · rintro ⟨_, ⟨count, rfl⟩, rfl⟩
            exact ⟨count, rfl⟩
          · rintro ⟨count, rfl⟩
            exact ⟨_, ⟨count, rfl⟩, rfl⟩
      · next other => simp [other, throw, throwThe, MonadExceptOf.throw]

/-- Positions count up from 1 once they are sorted if they are the numbers up to some number. -/
theorem sorted_eq_range'_iff {ps : List (UInt64 × Value)} {k : Nat} :
    (ps.mergeSort fun a b => a.1 ≤ b.1).map (fun p => p.1.toNat) = List.range' 1 k ↔
      (ps.map fun p => p.1.toNat).Perm (List.range' 1 k) := by
  have sorted : ((ps.mergeSort fun a b => a.1 ≤ b.1).map fun p => p.1.toNat).Pairwise (· ≤ ·) := by
    refine List.pairwise_map.2 ?_
    refine (List.pairwise_mergeSort ?_ ?_ ps).imp fun h =>
      UInt64.le_iff_toNat_le.1 (of_decide_eq_true h)
    · intro a b c ab bc
      exact decide_eq_true (UInt64.le_trans (of_decide_eq_true ab) (of_decide_eq_true bc))
    · intro a b
      simpa using UInt64.le_total a.1 b.1
  have perm := (List.mergeSort_perm ps fun a b => a.1 ≤ b.1).map fun p => p.1.toNat
  refine ⟨fun h => h ▸ perm.symm, fun h => ?_⟩
  -- Both lists are sorted, so that one is a permutation of the other is enough.
  exact (perm.trans h).eq_of_pairwise (fun _ _ _ _ => Nat.le_antisymm) sorted
    (List.pairwise_le_range' 1)

theorem positionalOnes_map (texts : List String) :
    (positionalOnes (texts.map slotAndValue)).map (fun p => p.1.toNat) = positionsOf texts := by
  rw [positionalOnes, positionsOf, List.filterMap_map, List.map_filterMap, List.map_filterMap]
  refine List.filterMap_congr fun t _ => ?_
  cases place : positionOf? t with
  | none => simp [slotAndValue, slotOfKey_of_positionOf?_eq_none place]
  | some n => simp [slotAndValue, positionOf?_eq_some_iff.1 place]

theorem mem_positionsOf {texts : List String} {n : UInt64} :
    n.toNat ∈ positionsOf texts ↔ ∃ t ∈ texts, positionOf? t = some n := by
  simp [positionsOf, UInt64.toNat_inj]

theorem positionsOf_perm {texts others : List String} (perm : texts.Perm others) :
    (positionsOf texts).Perm (positionsOf others) := (perm.filterMap _).map _

theorem length_positionalOnes_map (texts : List String) :
    (positionalOnes (texts.map slotAndValue)).length = (positionsOf texts).length := by
  rw [← positionalOnes_map, List.length_map]

/-- Texts are accepted if they are bindings and their positions count up from 1. -/
theorem Bindings.ofTexts_eq_ok_iff {texts : List String} {b : Bindings} :
    Bindings.ofTexts texts = .ok b ↔
      (∀ t ∈ texts, IsBinding t) ∧
      (positionsOf texts).Perm (List.range' 1 (positionsOf texts).length) ∧
      ofLists (((positionalOnes (texts.map slotAndValue)).mergeSort fun a b => a.1 ≤ b.1).map
        Prod.snd) (namedOnes (texts.map slotAndValue)) = b := by
  simp only [ofTexts, bind_eq_ok_iff, mapM_readBinding_eq_ok_iff, inSequence_eq_ok_iff,
    List.length_mergeSort]
  constructor
  · rintro ⟨_, ⟨all, rfl⟩, _, ⟨count, rfl⟩, made⟩
    rw [sorted_eq_range'_iff, positionalOnes_map, length_positionalOnes_map] at count
    exact ⟨all, count, Except.ok.inj made⟩
  · rintro ⟨all, count, rfl⟩
    rw [← length_positionalOnes_map, ← positionalOnes_map, ← sorted_eq_range'_iff] at count
    exact ⟨_, ⟨all, rfl⟩, _, ⟨count, rfl⟩, rfl⟩

theorem Bindings.exists_ofTexts_iff {texts : List String} :
    (∃ b, Bindings.ofTexts texts = .ok b) ↔
      (∀ t ∈ texts, IsBinding t) ∧ ∃ k, (positionsOf texts).Perm (List.range' 1 k) := by
  simp only [ofTexts_eq_ok_iff]
  constructor
  · rintro ⟨_, all, count, -⟩
    exact ⟨all, _, count⟩
  · rintro ⟨all, k, count⟩
    obtain rfl : (positionsOf texts).length = k := by rw [count.length_eq, List.length_range']
    exact ⟨_, all, count, rfl⟩

theorem Bindings.exists_ofTexts_perm {texts others : List String} (perm : texts.Perm others) :
    (∃ b, Bindings.ofTexts texts = .ok b) ↔ ∃ b, Bindings.ofTexts others = .ok b := by
  simp only [exists_ofTexts_iff, perm.mem_iff, (positionsOf_perm perm).congr_left]

/-! ### Values -/

theorem exists_key_of_mem_namedOnes {texts : List String} {name : String} {v : Value}
    (h : (name, v) ∈ namedOnes (texts.map slotAndValue)) :
    ∃ t ∈ texts, slotOfKey (keyOf t) = .named name := by
  obtain ⟨p, hp, entry⟩ := List.mem_filterMap.1 h
  obtain ⟨t, ht, rfl⟩ := List.mem_map.1 hp
  refine ⟨t, ht, ?_⟩
  rw [slotAndValue] at entry
  cases slot : slotOfKey (keyOf t) with
  | positional n => simp [slot] at entry
  | named other =>
      simp only [slot, Option.some.injEq, Prod.mk.injEq] at entry
      rw [entry.1]

namespace Bindings

variable {b : Bindings} {texts : List String} (accepted : Bindings.ofTexts texts = .ok b)

include accepted

/-- A slot has the literal of the last text that binds it. -/
theorem resolve_last {before after : List String} {t : String}
    (parts : texts = before ++ t :: after)
    (last : ∀ u ∈ after, slotOfKey (keyOf u) ≠ slotOfKey (keyOf t)) :
    b.resolve [slotOfKey (keyOf t)] = .ok [.ofText (literalOf t)] := by
  subst parts
  have read := readBinding_of_isBinding ((ofTexts_eq_ok_iff.1 accepted).1 t (by simp))
  refine resolve_cons_of_some (value?_ofTexts read (fun u hu v again => ?_) accepted)
  have other := readBinding_of_isBinding (isBinding_of_readBinding again)
  exact last u hu (congrArg Prod.fst (Except.ok.inj (other.symm.trans again)))

/-- A position that is bound has the literal of its text. -/
theorem resolve_position {t : String} (mem : t ∈ texts) {n : UInt64}
    (place : positionOf? t = some n) :
    b.resolve [.positional n] = .ok [.ofText (literalOf t)] := by
  obtain ⟨-, count, -⟩ := ofTexts_eq_ok_iff.1 accepted
  obtain ⟨before, after, parts⟩ := List.append_of_mem mem
  have nodup := count.nodup_iff.2 (List.nodup_range' 1)
  simp only [parts, positionsOf, List.filterMap_append, List.filterMap_cons_some place,
    List.map_append, List.map_cons] at nodup
  have once : n.toNat ∉ positionsOf after :=
    (List.nodup_cons.1 (List.nodup_append.1 nodup).2.1).1
  have slot := positionOf?_eq_some_iff.1 place
  rw [← slot]
  refine resolve_last accepted parts fun u hu same => once (mem_positionsOf.2 ⟨u, hu, ?_⟩)
  exact positionOf?_eq_some_iff.2 (same.trans slot)

/-- A name has the literal of the last text with this key. -/
theorem resolve_name {before after : List String} {t : String}
    (parts : texts = before ++ t :: after) (name : positionOf? t = none)
    (last : ∀ u ∈ after, keyOf u ≠ keyOf t) :
    b.resolve [.named (String.ofList (keyOf t))] = .ok [.ofText (literalOf t)] := by
  have slot := slotOfKey_of_positionOf?_eq_none name
  rw [← slot]
  refine resolve_last accepted parts fun u hu same => last u hu ?_
  exact eq_of_slotOfKey_eq_named (same.trans slot)

/-- A slot that no text binds is missing. -/
theorem resolve_unbound {s : Slot} (unbound : ∀ t ∈ texts, slotOfKey (keyOf t) ≠ s) :
    b.resolve [s] = .error (.missingArgument s.text) := by
  obtain ⟨-, count, rfl⟩ := ofTexts_eq_ok_iff.1 accepted
  refine resolve_cons_of_none ?_
  cases s with
  | named name =>
      refine (Store.get?_ofList _ _).trans (Option.map_eq_none_iff.2 (List.find?_eq_none.2 ?_))
      rintro ⟨key, v⟩ mem same
      obtain rfl : key = name := of_decide_eq_true same
      obtain ⟨t, ht, slot⟩ := exists_key_of_mem_namedOnes (List.mem_reverse.1 mem)
      exact unbound t ht slot
  | positional n =>
      have other : n.toNat ∉ positionsOf texts := fun mem =>
        let ⟨t, ht, place⟩ := mem_positionsOf.1 mem
        unbound t ht (positionOf?_eq_some_iff.1 place)
      rw [value?_positional]
      split
      · rfl
      · refine List.getElem?_eq_none ?_
        rw [ofLists, List.length_map, List.length_mergeSort, length_positionalOnes_map]
        rw [count.mem_iff, List.mem_range'_1] at other
        omega

theorem resolve_no_position {n : UInt64} (other : n.toNat ∉ positionsOf texts) :
    b.resolve [.positional n] = .error (.missingArgument (Slot.positional n).text) :=
  resolve_unbound accepted fun t ht same =>
    other (mem_positionsOf.2 ⟨t, ht, positionOf?_eq_some_iff.2 same⟩)

omit accepted in
/-- Positions have the same values whatever the order of the texts. -/
theorem resolve_position_perm {others : List String} {c : Bindings} (perm : texts.Perm others)
    (first : Bindings.ofTexts texts = .ok b) (second : Bindings.ofTexts others = .ok c)
    (n : UInt64) : b.resolve [.positional n] = c.resolve [.positional n] := by
  by_cases bound : n.toNat ∈ positionsOf texts
  · obtain ⟨t, ht, place⟩ := mem_positionsOf.1 bound
    rw [resolve_position first ht place, resolve_position second (perm.mem_iff.1 ht) place]
  · have unbound : n.toNat ∉ positionsOf others := fun h =>
      bound ((positionsOf_perm perm).mem_iff.2 h)
    rw [resolve_no_position first bound, resolve_no_position second unbound]

end Bindings

/-- **Which bindings are accepted**: texts with an equals sign and no position 0, whose positions
are the numbers from 1 to some number `k`, each once, in any order.  Then each of these positions
has the literal of its text, and no other position has a value; a name has the literal of the last
text with this key.  In another order texts are accepted or not as they were, and give the same to
each position. -/
theorem accepted_iff_positions (texts : List String) :
    ((∃ b, Bindings.ofTexts texts = .ok b) ↔
      (∀ t ∈ texts, IsBinding t) ∧ ∃ k, (positionsOf texts).Perm (List.range' 1 k)) ∧
    (∀ b k, Bindings.ofTexts texts = .ok b → (positionsOf texts).Perm (List.range' 1 k) →
      (∀ n : UInt64, 1 ≤ n.toNat ∧ n.toNat ≤ k → ∃ t ∈ texts, positionOf? t = some n) ∧
      (∀ t ∈ texts, ∀ n, positionOf? t = some n →
        b.resolve [.positional n] = .ok [.ofText (literalOf t)]) ∧
      (∀ n : UInt64, ¬ (1 ≤ n.toNat ∧ n.toNat ≤ k) →
        b.resolve [.positional n] = .error (.missingArgument (Slot.positional n).text)) ∧
      ∀ before t after, texts = before ++ t :: after → positionOf? t = none →
        (∀ u ∈ after, keyOf u ≠ keyOf t) →
          b.resolve [.named (String.ofList (keyOf t))] = .ok [.ofText (literalOf t)]) ∧
    ∀ others, texts.Perm others →
      ((∃ b, Bindings.ofTexts texts = .ok b) ↔ ∃ b, Bindings.ofTexts others = .ok b) ∧
      ∀ b c, Bindings.ofTexts texts = .ok b → Bindings.ofTexts others = .ok c →
        ∀ n, b.resolve [.positional n] = c.resolve [.positional n] := by
  refine ⟨Bindings.exists_ofTexts_iff, fun b k accepted count => ⟨?_, ?_, ?_, ?_⟩,
    fun others perm => ?_⟩
  · exact fun n within =>
      mem_positionsOf.1 (count.mem_iff.2 (List.mem_range'_1.2 ⟨within.1, by omega⟩))
  · exact fun t ht n place => Bindings.resolve_position accepted ht place
  · intro n beyond
    refine Bindings.resolve_no_position accepted fun mem => beyond ?_
    have within := List.mem_range'_1.1 (count.mem_iff.1 mem)
    omega
  · exact fun before t after parts name last => Bindings.resolve_name accepted parts name last
  · exact ⟨Bindings.exists_ofTexts_perm perm, fun b c first second =>
      Bindings.resolve_position_perm perm first second⟩

end PreparedSql
