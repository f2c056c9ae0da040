import Mathlib.Data.Finset.Card
import PreparedSql.Hydrate.PlanCache

/-!
# A plan store keeps what comes first

Any calls on one plan store, for types of any family and with any candidates.  What lies in the
store after a history is the first plan that a call of the history offered for each type
(`firstOffer?`), under the name of the type.  One call keeps this (`Keeps.call`), so a history does
(`keeps_after`); from it follow the answers to the next call and the number of plans.

* `first_plan_stays`: every call for a type is answered with the plan that was stored for it first,
  and no plan is found under the name of another type.
-/

namespace PreparedSql

/-- A call on a plan store. -/
inductive PlanCall {κ : Type} (T : κ → Type) where
  | get (k : κ)
  | getOrSet (k : κ) (candidate : Plan (T k))
  | planFor (k : κ)

section

variable {κ : Type} [DecidableEq κ] {T : κ → Type} [∀ k, Record (T k)]

namespace PlanCall

omit [DecidableEq κ] [∀ k, Record (T k)] in
/-- The type that a call is for. -/
def name : PlanCall T → κ
  | .get k        => k
  | .getOrSet k _ => k
  | .planFor k    => k

/-- The plan that a call has for a type that none is stored for: its candidate, or the plan of all
fields. -/
def offer? (k : κ) : PlanCall T → Option (Plan (T k))
  | .get _                 => none
  | .getOrSet k' candidate => if h : k' = k then some (h ▸ candidate) else none
  | .planFor k'            => if k' = k then some (.build (T k)) else none

theorem offer?_of_ne {call : PlanCall T} {k : κ} (h : call.name ≠ k) : call.offer? k = none := by
  cases call <;> simp_all [offer?, name]

@[simp] theorem offer?_getOrSet_self (k : κ) (candidate : Plan (T k)) :
    (getOrSet k candidate).offer? k = some candidate := by
  simp [offer?]

@[simp] theorem offer?_planFor_self (k : κ) :
    (planFor k : PlanCall T).offer? k = some (.build (T k)) := by
  simp [offer?]

end PlanCall

namespace PlanStore

/-- The store after a call, whatever its answer. -/
def call (s : PlanStore T) : PlanCall T → PlanStore T
  | .get _                => s
  | .getOrSet k candidate => (s.getOrSet k candidate).2
  | .planFor k            => (s.planFor k).2

/-- The store after a history, from an empty store on. -/
def after (h : List (PlanCall T)) : PlanStore T := h.foldl call {}

theorem after_concat (h : List (PlanCall T)) (c : PlanCall T) :
    after (h ++ [c]) = (after h).call c := by
  simp [after]

/-! ### What is offered first -/

/-- The first plan that a history offers for a type. -/
def firstOffer? (h : List (PlanCall T)) (k : κ) : Option (Plan (T k)) :=
  h.findSome? (PlanCall.offer? k)

theorem firstOffer?_append (h later : List (PlanCall T)) (k : κ) :
    firstOffer? (h ++ later) k = (firstOffer? h k).or (firstOffer? later k) := by
  simp [firstOffer?, List.findSome?_append]

theorem firstOffer?_concat (h : List (PlanCall T)) (c : PlanCall T) (k : κ) :
    firstOffer? (h ++ [c]) k = (firstOffer? h k).or (c.offer? k) := by
  rw [firstOffer?_append]
  congr 1
  cases e : c.offer? k <;> simp [firstOffer?, e]

/-- What was offered first stays first. -/
theorem firstOffer?_append_of_some {h : List (PlanCall T)} {k : κ} {p : Plan (T k)}
    (first : firstOffer? h k = some p) (later : List (PlanCall T)) :
    firstOffer? (h ++ later) k = some p := by
  rw [firstOffer?_append, first, Option.some_or]

/-- Calls for other types offer nothing. -/
theorem firstOffer?_filter (h : List (PlanCall T)) (k : κ) :
    firstOffer? (h.filter (·.name = k)) k = firstOffer? h k := by
  induction h using List.reverseRecOn with
  | nil => rfl
  | append_singleton h c ih =>
      rw [List.filter_append, firstOffer?_append, firstOffer?_append, ih]
      by_cases e : c.name = k
      · simp [e]
      · simp [e, firstOffer?, PlanCall.offer?_of_ne e]

/-! ### What a history leaves in the store -/

/-- Under the name of each type lies the first plan that was offered for it. -/
def Keeps (h : List (PlanCall T)) (s : PlanStore T) : Prop :=
  ∀ k, s.plans.get? k = (firstOffer? h k).map (AnyPlan.mk k)

namespace Keeps

variable {h : List (PlanCall T)} {s : PlanStore T}

/-- A plan is stored where none was offered before. -/
theorem insert (hs : Keeps h s) {c : PlanCall T} {p : Plan (T c.name)}
    (first : firstOffer? h c.name = none) (offer : c.offer? c.name = some p) :
    Keeps (h ++ [c]) ⟨s.plans.insert c.name ⟨c.name, p⟩⟩ := by
  intro k
  rw [firstOffer?_concat, Store.get?_insert]
  by_cases e : k = c.name
  · subst e
    simp [first, offer]
  · simp [e, hs k, PlanCall.offer?_of_ne (Ne.symm e)]

/-- A call that leaves the store as it is offers nothing, or comes too late. -/
theorem concat (hs : Keeps h s) {c : PlanCall T}
    (late : c.offer? c.name = none ∨ firstOffer? h c.name ≠ none) : Keeps (h ++ [c]) s := by
  intro k
  rw [hs k, firstOffer?_concat]
  by_cases e : c.name = k
  · subst e
    rcases late with none | some
    · rw [none, Option.or_none]
    · obtain ⟨p, hp⟩ := Option.ne_none_iff_exists'.1 some
      rw [hp, Option.some_or]
  · rw [PlanCall.offer?_of_ne e, Option.or_none]

/-- What the operations answer, and what they leave. -/
theorem get? (hs : Keeps h s) (k : κ) : s.get? k = .ok (firstOffer? h k) := by
  have found := hs k
  cases first : firstOffer? h k with
  | none => exact get?_of_none (by rw [found, first]; rfl)
  | some p => exact get?_of_some (by rw [found, first]; rfl)

theorem getOrSet (hs : Keeps h s) (k : κ) (candidate : Plan (T k)) :
    (s.getOrSet k candidate).1 = .ok ((firstOffer? h k).getD candidate) ∧
      Keeps (h ++ [.getOrSet k candidate]) (s.getOrSet k candidate).2 := by
  have found := hs k
  cases first : firstOffer? h k with
  | none =>
      rw [getOrSet_of_none (by rw [found, first]; rfl)]
      exact ⟨rfl, hs.insert (c := .getOrSet k candidate) first (by simp [PlanCall.name])⟩
  | some p =>
      rw [getOrSet_of_some (by rw [found, first]; rfl)]
      exact ⟨rfl, hs.concat (.inr (by simp [PlanCall.name, first]))⟩

theorem planFor (hs : Keeps h s) (k : κ) :
    (s.planFor k).1 = .ok ((firstOffer? h k).getD (.build (T k))) ∧
      Keeps (h ++ [.planFor k]) (s.planFor k).2 := by
  have found := hs k
  cases first : firstOffer? h k with
  | none =>
      have absent : s.plans.get? k = none := by rw [found, first]; rfl
      rw [planFor_of_none absent, getOrSet_of_none absent]
      exact ⟨rfl, hs.insert (c := .planFor k) first (by simp [PlanCall.name])⟩
  | some p =>
      rw [planFor_of_some (by rw [found, first]; rfl)]
      exact ⟨rfl, hs.concat (.inr (by simp [PlanCall.name, first]))⟩

/-- **One call keeps what is first.** -/
theorem call (hs : Keeps h s) (c : PlanCall T) : Keeps (h ++ [c]) (s.call c) := by
  cases c with
  | get k => exact hs.concat (.inl rfl)
  | getOrSet k candidate => exact (hs.getOrSet k candidate).2
  | planFor k => exact (hs.planFor k).2

end Keeps

/-- **The store after any history** has the first plan that was offered for each type. -/
theorem keeps_after (h : List (PlanCall T)) : Keeps h (after h) := by
  induction h using List.reverseRecOn with
  | nil => exact fun _ => rfl
  | append_singleton h c ih =>
      rw [after_concat]
      exact ih.call c

/-- The names in the store are those of the types that have a plan. -/
theorem Keeps.mem_keys_iff {h : List (PlanCall T)} {s : PlanStore T} (hs : Keeps h s) (k : κ) :
    k ∈ s.plans.keys ↔ ∃ p, s.get? k = .ok (some p) := by
  rw [← Store.isSome_get?, hs k, hs.get? k]
  cases firstOffer? h k <;> simp

/-- **The first plan stored for a type stays.**  After any history, a call for a type is answered
with the first plan that the history offered for it, or else with its own offer, and no plan is
found under the name of another type.  A plan that is found is the answer to every later call for
the type, whatever comes between, and whatever the call offers.  Calls for other types and `get`
change nothing, and the size counts the types that have a plan. -/
theorem first_plan_stays (h : List (PlanCall T)) :
    (∀ k, (after h).get? k = .ok (firstOffer? h k) ∧
      (∀ candidate, ((after h).getOrSet k candidate).1 =
        .ok ((firstOffer? h k).getD candidate)) ∧
      ((after h).planFor k).1 = .ok ((firstOffer? h k).getD (.build (T k)))) ∧
    (∀ k p, (after h).get? k = .ok (some p) → ∀ later,
      (after (h ++ later)).get? k = .ok (some p) ∧
      (∀ candidate, ((after (h ++ later)).getOrSet k candidate).1 = .ok p) ∧
      ((after (h ++ later)).planFor k).1 = .ok p) ∧
    (∀ k, (after (h ++ [.get k])) = after h ∧
      (after h).get? k = (after (h.filter (·.name = k))).get? k) ∧
    ∃ types : Finset κ, (∀ k, k ∈ types ↔ ∃ p, (after h).get? k = .ok (some p)) ∧
      (after h).size = types.card := by
  have keeps := keeps_after h
  refine ⟨fun k => ⟨keeps.get? k, fun q => (keeps.getOrSet k q).1, (keeps.planFor k).1⟩,
    fun k p found later => ?_, fun k => ⟨after_concat h _, ?_⟩, ?_⟩
  · have first : firstOffer? (h ++ later) k = some p :=
      firstOffer?_append_of_some (Except.ok.inj ((keeps.get? k).symm.trans found)) later
    have keeps' := keeps_after (h ++ later)
    refine ⟨?_, fun q => ?_, ?_⟩
    · rw [keeps'.get? k, first]
    · rw [(keeps'.getOrSet k q).1, first, Option.getD_some]
    · rw [(keeps'.planFor k).1, first, Option.getD_some]
  · rw [keeps.get? k, (keeps_after _).get? k, firstOffer?_filter]
  · have nodup : (after h).plans.keys.Nodup := (after h).plans.nodup
    refine ⟨(after h).plans.keys.toFinset, fun k => ?_, ?_⟩
    · rw [List.mem_toFinset, keeps.mem_keys_iff]
    · rw [List.toFinset_card_of_nodup nodup]
      exact Store.size_eq_length_keys _

end PlanStore

end

end PreparedSql
