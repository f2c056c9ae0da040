import PreparedSql.Hydrate.Plan

/-!
# Plan caches

One plan for each type of records; the first plan stored for a type stays. The types are a family
over a set of names with decidable equality. Plans of all types lie in one store, under the names
of their types, and a plan in the store has forgotten its type but for the name (`AnyPlan`). Who
takes a plan out says what type it should be for; a plan for another type is a broken store, which
is no answer but a stop (`ForeignPlan`).

* `PlanStore` has the operations with that stop.
* `PlanCache` is a store in which every plan lies under its own name. No operation on it stops
  (`get?_eq`, `getOrSet_eq`, `planFor_eq`).
-/

namespace PreparedSql

/-- A plan for a type of a family, with the name of the type. -/
structure AnyPlan {κ : Type} (T : κ → Type) where
  name : κ
  plan : Plan (T name)

/-- The stop where a plan for another type lies under the name that was asked for. -/
structure ForeignPlan (κ : Type) where
  asked : κ
  found : κ

/-- The plan as one for the type of this name, if it is one. -/
def AnyPlan.cast {κ : Type} [DecidableEq κ] {T : κ → Type} (p : AnyPlan T) (k : κ) :
    Except (ForeignPlan κ) (Plan (T k)) :=
  if h : p.name = k then pure (h ▸ p.plan) else throw ⟨k, p.name⟩

/-- A plan asked for under its own type is given out as it went in. -/
@[simp] theorem AnyPlan.cast_self {κ : Type} [DecidableEq κ] {T : κ → Type} (k : κ)
    (p : Plan (T k)) : (AnyPlan.mk k p).cast k = .ok p := by
  simp [AnyPlan.cast, pure, Except.pure]

/-- Plans for the types of a family, by name. -/
structure PlanStore {κ : Type} (T : κ → Type) where
  plans : Store κ (AnyPlan T) := ⟨[], List.nodup_nil⟩

namespace PlanStore

variable {κ : Type} {T : κ → Type}

def size (s : PlanStore T) : Nat := s.plans.entries.length

def isEmpty (s : PlanStore T) : Bool := s.plans.entries.isEmpty

/-- Every plan lies under its own name. -/
def Own (s : PlanStore T) : Prop := ∀ e ∈ s.plans.entries, e.2.name = e.1

variable [DecidableEq κ]

def get? (s : PlanStore T) (k : κ) : Except (ForeignPlan κ) (Option (Plan (T k))) :=
  match s.plans.get? k with
  | some stored => some <$> stored.cast k
  | none => pure none

/-- The plan in effect for a type: the one stored, or this one, stored now. -/
def getOrSet (s : PlanStore T) (k : κ) (p : Plan (T k)) :
    Except (ForeignPlan κ) (Plan (T k)) × PlanStore T :=
  let (stored, plans) := s.plans.getOrInsert k ⟨k, p⟩
  (stored.cast k, ⟨plans⟩)

/-- The plan in effect for a type, built from all its fields where there is none. -/
def planFor (s : PlanStore T) (k : κ) [Record (T k)] :
    Except (ForeignPlan κ) (Plan (T k)) × PlanStore T :=
  match s.get? k with
  | .error e => (throw e, s)
  | .ok (some stored) => (pure stored, s)
  | .ok none => s.getOrSet k (.build (T k))

section

variable {s : PlanStore T} {k : κ}

theorem get?_of_none (h : s.plans.get? k = none) : s.get? k = .ok none := by
  rw [get?, h]
  rfl

/-- What lies under its own name is taken out without a stop. -/
theorem get?_of_some {p : Plan (T k)} (h : s.plans.get? k = some ⟨k, p⟩) :
    s.get? k = .ok (some p) := by
  simp only [get?, h, AnyPlan.cast_self]
  rfl

/-- The first plan offered for a type is the one in effect from then on. -/
theorem getOrSet_of_none (h : s.plans.get? k = none) (p : Plan (T k)) :
    s.getOrSet k p = (.ok p, ⟨s.plans.insert k ⟨k, p⟩⟩) := by
  simp only [getOrSet, Store.getOrInsert_of_none h, AnyPlan.cast_self]

/-- A plan offered later changes nothing. -/
theorem getOrSet_of_some {p : Plan (T k)} (h : s.plans.get? k = some ⟨k, p⟩) (q : Plan (T k)) :
    s.getOrSet k q = (.ok p, s) := by
  simp only [getOrSet, Store.getOrInsert_of_some h, AnyPlan.cast_self]

/-- A plan that is built is offered like any other. -/
theorem planFor_of_none [Record (T k)] (h : s.plans.get? k = none) :
    s.planFor k = s.getOrSet k (.build (T k)) := by
  rw [planFor, get?_of_none h]

/-- No plan is built for a type that has one. -/
theorem planFor_of_some [Record (T k)] {p : Plan (T k)} (h : s.plans.get? k = some ⟨k, p⟩) :
    s.planFor k = (.ok p, s) := by
  rw [planFor, get?_of_some h]
  rfl

end

/-! ### Plans under their own names -/

namespace Own

variable {s : PlanStore T}

/-- Under a name lies nothing, or a plan for the type of that name. -/
theorem lookup_cases (hs : s.Own) (k : κ) :
    s.plans.get? k = none ∨ ∃ p, s.plans.get? k = some ⟨k, p⟩ := by
  cases h : s.plans.get? k with
  | none => exact .inl rfl
  | some stored =>
      obtain ⟨name, p⟩ := stored
      obtain rfl : name = k := hs _ (Store.mem_entries_iff.2 h)
      exact .inr ⟨p, rfl⟩

/-- A plan written under the name of its type leaves all plans under their own names. -/
theorem insert (hs : s.Own) (k : κ) (p : Plan (T k)) : Own ⟨s.plans.insert k ⟨k, p⟩⟩ := by
  intro e he
  rcases List.mem_append.1 he with he | he
  · exact hs e (List.mem_filter.1 he).1
  · rw [List.mem_singleton.1 he]

/-- Where all plans lie under their own names, taking one out does not stop. -/
theorem get? (hs : s.Own) (k : κ) : ∃ found, s.get? k = .ok found := by
  rcases hs.lookup_cases k with h | ⟨p, h⟩
  · exact ⟨none, get?_of_none h⟩
  · exact ⟨some p, get?_of_some h⟩

/-- Offering one does not stop either, and leaves all of them under their own names. -/
theorem getOrSet (hs : s.Own) (k : κ) (q : Plan (T k)) :
    (∃ p, (s.getOrSet k q).1 = .ok p) ∧ (s.getOrSet k q).2.Own := by
  rcases hs.lookup_cases k with h | ⟨p, h⟩
  · rw [getOrSet_of_none h]
    exact ⟨⟨q, rfl⟩, hs.insert k q⟩
  · rw [getOrSet_of_some h]
    exact ⟨⟨p, rfl⟩, hs⟩

/-- The same holds of building one: it is a lookup, then perhaps an offer. -/
theorem planFor (hs : s.Own) (k : κ) [Record (T k)] :
    (∃ p, (s.planFor k).1 = .ok p) ∧ (s.planFor k).2.Own := by
  rcases hs.lookup_cases k with h | ⟨p, h⟩
  · rw [planFor_of_none h]
    exact hs.getOrSet k _
  · rw [planFor_of_some h]
    exact ⟨⟨p, rfl⟩, hs⟩

end Own

end PlanStore

/-- Plans for the types of a family, each under its own name. -/
structure PlanCache {κ : Type} (T : κ → Type) extends PlanStore T where
  own : toPlanStore.Own := by intro _ h; cases h

namespace PlanCache

/-- The answer of what does not stop. -/
def answer {ε α : Type} : (x : Except ε α) → (∃ a, x = .ok a) → α
  | .ok a, _ => a
  | .error _, h => absurd h (by simp)

theorem eq_ok_answer {ε α : Type} {x : Except ε α} (h : ∃ a, x = .ok a) : x = .ok (answer x h) := by
  obtain ⟨a, rfl⟩ := h
  rfl

variable {κ : Type} [DecidableEq κ] {T : κ → Type} (c : PlanCache T) (k : κ)

def get? : Option (Plan (T k)) := answer _ (c.own.get? k)

/-- The plan in effect for a type: the one stored, or this one, stored now. -/
def getOrSet (p : Plan (T k)) : Plan (T k) × PlanCache T :=
  (answer _ (c.own.getOrSet k p).1, ⟨_, (c.own.getOrSet k p).2⟩)

/-- The plan in effect for a type, built from all its fields where there is none. -/
def planFor [Record (T k)] : Plan (T k) × PlanCache T :=
  (answer _ (c.own.planFor k).1, ⟨_, (c.own.planFor k).2⟩)

/-- The cache answers as its store does, which never stops on it. -/
theorem get?_eq : c.toPlanStore.get? k = .ok (c.get? k) := eq_ok_answer (c.own.get? k)

theorem getOrSet_eq (p : Plan (T k)) :
    c.toPlanStore.getOrSet k p = (.ok (c.getOrSet k p).1, (c.getOrSet k p).2.toPlanStore) :=
  Prod.ext (eq_ok_answer (c.own.getOrSet k p).1) rfl

theorem planFor_eq [Record (T k)] :
    c.toPlanStore.planFor k = (.ok (c.planFor k).1, (c.planFor k).2.toPlanStore) :=
  Prod.ext (eq_ok_answer (c.own.planFor k).1) rfl

end PlanCache

end PreparedSql
