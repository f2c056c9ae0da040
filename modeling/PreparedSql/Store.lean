/-!
# Stores

A finite map from keys to values, as a list of entries in which each key occurs once. `get?` is the
view; every operation has one equation through it.

* `get?_insert`, `get?_erase`: writing or removing one key leaves the others alone.
* `getOrInsert_of_none`, `getOrInsert_of_some`: the first value written for a key stays.
* `get?_ofList`: of the entries that a store is built from, the last one with a key counts.
* `isSome_get?`: a key has a value exactly when it is one of the keys.
* `perm_erase`: the entry of a key and the store without the key make up the store.
* `perm_inOrder`: going through the keys in any order meets every entry once.
* `nodup`, a field of the type: no key is counted twice in the size.
-/

namespace PreparedSql

@[ext]
structure Store (κ ν : Type) where
  entries : List (κ × ν)
  nodup   : (entries.map Prod.fst).Nodup

namespace Store

variable {κ ν : Type} [DecidableEq κ]

def empty : Store κ ν := ⟨[], List.nodup_nil⟩

instance : Inhabited (Store κ ν) := ⟨empty⟩

/-- The value of the first entry with the key. -/
def lookup (k : κ) : List (κ × ν) → Option ν
  | [] => none
  | (k', v) :: rest => if k' = k then some v else lookup k rest

/-- The entries with another key. -/
def without (k : κ) (entries : List (κ × ν)) : List (κ × ν) := entries.filter fun e => e.1 ≠ k

/-- The value written for a key. -/
def get? (s : Store κ ν) (k : κ) : Option ν := lookup k s.entries

def keys (s : Store κ ν) : List κ := s.entries.map Prod.fst

def values (s : Store κ ν) : List ν := s.entries.map Prod.snd

def size (s : Store κ ν) : Nat := s.entries.length

def isEmpty (s : Store κ ν) : Bool := s.entries.isEmpty

theorem map_fst_without (k : κ) (entries : List (κ × ν)) :
    (without k entries).map Prod.fst = (entries.map Prod.fst).filter (· ≠ k) := by
  simp [without, List.filter_map, Function.comp_def]

/-- What is left of the entries still has no key twice. -/
theorem nodup_without {entries : List (κ × ν)} (h : (entries.map Prod.fst).Nodup) (k : κ) :
    ((without k entries).map Prod.fst).Nodup := by
  rw [map_fst_without]
  exact h.sublist List.filter_sublist

theorem not_mem_without (k : κ) (entries : List (κ × ν)) : k ∉ (without k entries).map Prod.fst := by
  simp [map_fst_without]

/-- The store without the key. -/
def erase (s : Store κ ν) (k : κ) : Store κ ν := ⟨without k s.entries, nodup_without s.nodup k⟩

/-- The store with the value written for the key, in place of any value it had. -/
def insert (s : Store κ ν) (k : κ) (v : ν) : Store κ ν where
  entries := without k s.entries ++ [(k, v)]
  nodup   := by
    rw [List.map_append, List.nodup_append]
    refine ⟨nodup_without s.nodup k, by simp, ?_⟩
    intro a ha b hb e
    simp only [List.map_cons, List.map_nil, List.mem_singleton] at hb
    have : a = k := e.trans hb
    subst this
    exact not_mem_without a s.entries ha

/-- The value of the key, written now unless there is one. -/
def getOrInsert (s : Store κ ν) (k : κ) (v : ν) : ν × Store κ ν :=
  match s.get? k with
  | some old => (old, s)
  | none => (v, s.insert k v)

/-- A store of these entries; of two with one key the later one counts. -/
def ofList (entries : List (κ × ν)) : Store κ ν :=
  entries.foldl (fun s e => s.insert e.1 e.2) empty

/-- An order to go through the keys of a store in; a store has none of its own. -/
structure Order (κ : Type) where
  arrange : List κ → List κ
  perm    : ∀ keys, (arrange keys).Perm keys

/-- The order in which the keys were written last. -/
def Order.asWritten : Order κ := ⟨id, fun _ => .refl _⟩

/-- The entries, their keys in an order. -/
def inOrder (s : Store κ ν) (o : Order κ) : List (κ × ν) :=
  (o.arrange s.keys).filterMap fun k => (s.get? k).map fun v => (k, v)

/-- The store with a function applied to every value. -/
def map {μ : Type} (f : ν → μ) (s : Store κ ν) : Store κ μ where
  entries := s.entries.map fun e => (e.1, f e.2)
  nodup   := by
    rw [List.map_map]
    exact s.nodup

/-! ### The view -/

theorem lookup_without_self (k : κ) (entries : List (κ × ν)) : lookup k (without k entries) = none := by
  induction entries with
  | nil => rfl
  | cons e rest ih =>
    by_cases h : e.1 = k
    · simpa [without, h] using ih
    · simpa [without, h, lookup] using ih

theorem lookup_without_of_ne {k k' : κ} (h : k' ≠ k) (entries : List (κ × ν)) :
    lookup k' (without k entries) = lookup k' entries := by
  induction entries with
  | nil => rfl
  | cons e rest ih =>
    by_cases h₁ : e.1 = k
    · have h₂ : e.1 ≠ k' := fun h₃ => h (h₃.symm.trans h₁)
      simpa [without, h₁, lookup, h₂, Ne.symm h] using ih
    · by_cases h₂ : e.1 = k'
      · simp [without, lookup, h, h₂]
      · simpa [without, h₁, h₂, lookup] using ih

/-- An entry is found by its key, where keys occur once. -/
theorem lookup_of_mem {entries : List (κ × ν)} (nodup : (entries.map Prod.fst).Nodup)
    {e : κ × ν} (h : e ∈ entries) : lookup e.1 entries = some e.2 := by
  induction entries with
  | nil => cases h
  | cons e' rest ih =>
    simp only [List.map_cons, List.nodup_cons] at nodup
    rcases List.mem_cons.1 h with rfl | h
    · simp [lookup]
    · have : e'.1 ≠ e.1 := fun eq => nodup.1 (eq ▸ List.mem_map_of_mem h)
      simp [lookup, this, ih nodup.2 h]

/-- Of two lists the first one is asked first. -/
theorem lookup_append (k : κ) (xs ys : List (κ × ν)) :
    lookup k (xs ++ ys) = (lookup k xs).or (lookup k ys) := by
  induction xs with
  | nil => simp [lookup]
  | cons e rest ih =>
    by_cases h : e.1 = k <;> simp [lookup, h, ih]

@[simp] theorem get?_empty (k : κ) : (empty : Store κ ν).get? k = none := rfl

/-- What is written for a key is what the key has, and nothing else changes. -/
theorem get?_insert (s : Store κ ν) (k k' : κ) (v : ν) :
    (s.insert k v).get? k' = if k' = k then some v else s.get? k' := by
  by_cases h : k' = k
  · subst h
    simp [get?, insert, lookup_append, lookup_without_self, lookup]
  · simp [get?, insert, lookup_append, lookup_without_of_ne h, lookup, h, Ne.symm h]

/-- A key that is removed has no value, and nothing else changes. -/
theorem get?_erase (s : Store κ ν) (k k' : κ) :
    (s.erase k).get? k' = if k' = k then none else s.get? k' := by
  by_cases h : k' = k
  · subst h
    simp [get?, erase, lookup_without_self]
  · simp [get?, erase, lookup_without_of_ne h, h]

theorem isSome_lookup (k : κ) (entries : List (κ × ν)) :
    (lookup k entries).isSome ↔ k ∈ entries.map Prod.fst := by
  induction entries with
  | nil => simp [lookup]
  | cons e rest ih =>
    by_cases h : e.1 = k
    · simp [lookup, h]
    · simpa [lookup, h, Ne.symm h] using ih

/-- The keys are those with a value. -/
theorem isSome_get? (s : Store κ ν) (k : κ) : (s.get? k).isSome ↔ k ∈ s.keys :=
  isSome_lookup k s.entries

theorem lookup_eq_find? (k : κ) (entries : List (κ × ν)) :
    lookup k entries = (entries.find? fun e => e.1 = k).map Prod.snd := by
  induction entries with
  | nil => rfl
  | cons e rest ih => by_cases h : e.1 = k <;> simp [lookup, h, ih]

/-- The last entry with a key counts. -/
theorem get?_ofList (entries : List (κ × ν)) (k : κ) :
    (ofList entries).get? k = (entries.reverse.find? fun e => e.1 = k).map Prod.snd := by
  have built : ∀ s : Store κ ν, (entries.foldl (fun s e => s.insert e.1 e.2) s).get? k =
      (lookup k entries.reverse).or (s.get? k) := by
    induction entries with
    | nil => exact fun _ => rfl
    | cons e rest ih =>
      intro s
      rw [List.foldl_cons, ih, get?_insert, List.reverse_cons, lookup_append]
      by_cases h : k = e.1
      · simp [lookup, h]
      · simp [lookup, h, Ne.symm h]
  rw [← lookup_eq_find?, ofList, built, get?_empty, Option.or_none]

omit [DecidableEq κ] in
theorem size_eq_length_keys (s : Store κ ν) : s.size = s.keys.length := by simp [size, keys]

/-! ### Entries -/

theorem without_append (k : κ) (xs ys : List (κ × ν)) :
    without k (xs ++ ys) = without k xs ++ without k ys := List.filter_append ..

/-- Only an entry of the key is taken away. -/
theorem without_of_notMem {k : κ} {entries : List (κ × ν)} (h : k ∉ entries.map Prod.fst) :
    without k entries = entries := by
  refine List.filter_eq_self.2 fun e he => ?_
  have : e.1 ≠ k := fun eq => h (eq ▸ List.mem_map_of_mem he)
  simpa using this

theorem get?_eq_none_iff (s : Store κ ν) (k : κ) : s.get? k = none ↔ k ∉ s.keys := by
  rw [← isSome_get?, Option.not_isSome_iff_eq_none]

/-- Removing a key that is not there does nothing. -/
theorem erase_of_get?_eq_none {s : Store κ ν} {k : κ} (h : s.get? k = none) : s.erase k = s :=
  Store.ext (without_of_notMem ((s.get?_eq_none_iff k).1 h))

/-- What was written for a key is gone with the key. -/
theorem erase_insert_self (s : Store κ ν) (k : κ) (v : ν) : (s.insert k v).erase k = s.erase k := by
  ext1
  show without k (without k s.entries ++ [(k, v)]) = without k s.entries
  rw [without_append, without_of_notMem (not_mem_without k s.entries)]
  simp [without]

/-- Of two values written for a key the second stays. -/
theorem insert_insert_self (s : Store κ ν) (k : κ) (v w : ν) :
    (s.insert k v).insert k w = s.insert k w := by
  ext1
  have rest := congrArg entries (s.erase_insert_self k v)
  show without k (s.insert k v).entries ++ [(k, w)] = without k s.entries ++ [(k, w)]
  rw [show without k (s.insert k v).entries = without k s.entries from rest]

/-- The entry of a key and the store without the key make up the store. -/
theorem perm_erase {s : Store κ ν} {k : κ} {v : ν} (h : s.get? k = some v) :
    s.entries.Perm ((k, v) :: (s.erase k).entries) := by
  obtain ⟨entries, nodup⟩ := s
  show entries.Perm ((k, v) :: without k entries)
  have found : lookup k entries = some v := h
  clear h
  induction entries with
  | nil => cases found
  | cons e rest ih =>
    simp only [List.map_cons, List.nodup_cons] at nodup
    by_cases h : e.1 = k
    · subst h
      have : e.2 = v := by simpa [lookup] using found
      subst this
      have same : without e.1 (e :: rest) = rest := by
        rw [← without_of_notMem nodup.1]
        simp [without]
      rw [same]
    · have later : lookup k rest = some v := by simpa [lookup, h] using found
      have same : without k (e :: rest) = e :: without k rest := by simp [without, h]
      rw [same]
      exact ((ih nodup.2 later).cons e).trans (.swap ..)

/-- An entry is a key with its value. -/
theorem mem_entries_iff {s : Store κ ν} {k : κ} {v : ν} :
    (k, v) ∈ s.entries ↔ s.get? k = some v :=
  ⟨lookup_of_mem s.nodup, fun h => (perm_erase h).mem_iff.2 (List.mem_cons_self ..)⟩


/-- Going through the keys in any order meets every entry once. -/
theorem perm_inOrder (s : Store κ ν) (o : Order κ) : (s.inOrder o).Perm s.entries := by
  refine ((o.perm s.keys).filterMap _).trans ?_
  have each : ∀ rest : List (κ × ν), rest.Sublist s.entries →
      (rest.map Prod.fst).filterMap (fun k => (s.get? k).map fun v => (k, v)) = rest := by
    intro rest hs
    induction rest with
    | nil => rfl
    | cons e rest ih =>
      have value : s.get? e.1 = some e.2 := lookup_of_mem s.nodup (hs.subset (by simp))
      simp [value, ih (List.sublist_of_cons_sublist hs)]
  rw [keys, each s.entries (.refl _)]

/-! ### Values under a function -/

section

variable {μ : Type} (f : ν → μ)

theorem lookup_map (k : κ) (entries : List (κ × ν)) :
    lookup k (entries.map fun e => (e.1, f e.2)) = (lookup k entries).map f := by
  induction entries with
  | nil => rfl
  | cons e rest ih =>
    by_cases h : e.1 = k <;> simp [lookup, h, ih]

theorem without_map (k : κ) (entries : List (κ × ν)) :
    without k (entries.map fun e => (e.1, f e.2)) =
      (without k entries).map fun e => (e.1, f e.2) := by
  simp [without, List.filter_map, Function.comp_def]

/-- A function on the values does not change which keys there are. -/
theorem get?_map (s : Store κ ν) (k : κ) : (s.map f).get? k = (s.get? k).map f :=
  lookup_map f k s.entries

/-- It does not matter whether a value is changed before it is written or after. -/
theorem map_insert (s : Store κ ν) (k : κ) (v : ν) :
    (s.insert k v).map f = (s.map f).insert k (f v) := by
  ext1
  simp [map, insert, without_map]

theorem map_erase (s : Store κ ν) (k : κ) : (s.erase k).map f = (s.map f).erase k := by
  ext1
  simp [map, erase, without_map]

omit [DecidableEq κ] in
theorem keys_map (s : Store κ ν) : (s.map f).keys = s.keys := by
  simp [keys, map, Function.comp_def]

/-- A function on the values leaves the order of the entries as it is. -/
theorem inOrder_map (s : Store κ ν) (o : Order κ) :
    (s.map f).inOrder o = (s.inOrder o).map fun e => (e.1, f e.2) := by
  simp only [inOrder, keys_map, get?_map, List.map_filterMap, Option.map_map, Function.comp_def]

end

/-! ### The first value of a key stays -/

/-- Where there is no value, the one that is offered is written. -/
theorem getOrInsert_of_none {s : Store κ ν} {k : κ} (h : s.get? k = none) (v : ν) :
    s.getOrInsert k v = (v, s.insert k v) := by
  rw [getOrInsert, h]

/-- Where there is one, it stays, and what is offered is dropped. -/
theorem getOrInsert_of_some {s : Store κ ν} {k : κ} {old : ν} (h : s.get? k = some old) (v : ν) :
    s.getOrInsert k v = (old, s) := by
  rw [getOrInsert, h]

end Store

end PreparedSql
