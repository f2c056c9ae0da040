import Mathlib.Data.List.Induction
import PreparedSql.ArrayPool

/-!
# Arrays are reused empty

Any steps of any holders of arrays with one pool.  All that the pool ever has is a number of empty
arrays (`ArrayPool.holding`), so a history leaves a number in it and, for each holder, what the
holder's own steps make of nothing (`HeldArray.ofSteps`).  No step of another holder, and no array
that waited before, shows in what a holder has.

* `Lending.pool_step`, `Lending.get?_step`: what one step does to the number and to the arrays held.
* `Lending.pool_after`, `Lending.get?_after`: what a history does.
* `Lending.arrays_reused_empty`: what is acquired and what waits is empty, and how each step moves
  the number of those that wait.
-/

namespace PreparedSql

/-! ### The pool -/

namespace ArrayPool

/-- A number one higher, if it was below the limit. -/
def oneMore (limit n : Nat) : Nat := if n < limit then n + 1 else n

/-- A pool in which so many empty arrays wait, of at most `limit`. -/
def holding (limit n : Nat) : ArrayPool := ⟨limit, List.replicate n []⟩

variable {limit n : Nat}

theorem oneMore_le (h : n ≤ limit) : oneMore limit n ≤ limit := by
  unfold oneMore
  split <;> omega

@[simp] theorem idle_holding : (holding limit n).idle = n := List.length_replicate

theorem eq_nil_of_mem_holding {array : List Value} (h : array ∈ (holding limit n).free) :
    array = [] := List.eq_of_mem_replicate h

/-- What is acquired is empty, and one array less waits, if any did. -/
theorem acquire_holding : (holding limit n).acquire = ([], holding limit (n - 1)) := by
  cases n <;> rfl

/-- Whatever was in the array, an empty one waits after it. -/
theorem release_holding (array : List Value) :
    (holding limit n).release array = holding limit (oneMore limit n) := by
  unfold release oneMore
  rw [idle_holding]
  show (if n < limit then _ else _) = _
  split <;> rfl

end ArrayPool

open ArrayPool

/-! ### What a holder has -/

namespace HeldArray

/-- How many arrays wait after a holder gives up what it has. Only a pooled array goes back. -/
def gaveBack (limit : Nat) : Option HeldArray → (n : Nat) → Nat
  | some (.pooled ⟨some _⟩), n => oneMore limit n
  | _, n                       => n

/-- How many arrays wait after a step of a holder. -/
def idleAfter (limit : Nat) (held : Option HeldArray) (n : Nat) : Lending.Step → Nat
  | .acquire                   => gaveBack limit held (n - 1)
  | .create | .drop            => gaveBack limit held n
  | .push _ | .clear | .detach => n
  | .release                   => match held with
    | some (.loose _) => oneMore limit n
    | _               => n

/-- What a holder has after a step of its own. -/
def after (held : Option HeldArray) : Lending.Step → Option HeldArray
  | .acquire => some (.pooled ⟨some []⟩)
  | .create  => some (.loose [])
  | .push v  => held.map (·.map (· ++ [v]))
  | .clear   => held.map (·.map fun _ => [])
  | .drop    => none
  | .detach  => match held with
    | some (.pooled ⟨some vs⟩) => some (.loose vs)
    | other                    => other
  | .release => match held with
    | some (.loose _) => none
    | other           => other

/-- What a holder has after steps of its own. -/
def ofSteps (steps : List Lending.Step) : Option HeldArray := steps.foldl after none

/-- A guard that is held has its array. -/
def Present (held : Option HeldArray) : Prop :=
  ∀ g, held = some (.pooled g) → ∃ array, g.array = some array

theorem Present.map {held : Option HeldArray} (h : Present held) (f : List Value → List Value) :
    Present (held.map (·.map f)) := by
  intro g guarded
  match held with
  | some (.pooled g') =>
      obtain ⟨array, present⟩ := h g' rfl
      obtain rfl : ⟨g'.array.map f⟩ = g := by simpa [HeldArray.map] using guarded
      exact ⟨f array, by rw [present, Option.map_some]⟩
  | some (.loose _) | none => cases guarded

/-- A guard that gives up its array is gone with it. -/
theorem Present.after {held : Option HeldArray} (h : Present held) (s : Lending.Step) :
    Present (after held s) := by
  cases s with
  | acquire =>
      rintro g ⟨⟩
      exact ⟨[], rfl⟩
  | create | drop => rintro g ⟨⟩
  | push v => exact h.map _
  | clear => exact h.map _
  | detach =>
      match held with
      | some (.pooled ⟨some _⟩) => rintro g ⟨⟩
      | some (.pooled ⟨none⟩) | some (.loose _) | none => exact h
  | release =>
      match held with
      | some (.loose _) => rintro g ⟨⟩
      | some (.pooled _) | none => exact h

theorem present_ofSteps (steps : List Lending.Step) : Present (ofSteps steps) := by
  induction steps using List.reverseRecOn with
  | nil => rintro g ⟨⟩
  | append_singleton steps s ih =>
      rw [ofSteps, List.foldl_append]
      exact ih.after s

end HeldArray

namespace Lending

variable {limit n : Nat}

/-- To give up an array of the pool is to release it; any other array is let go. -/
theorem giveUp_holding (held : Option HeldArray) :
    giveUp (holding limit n) held = holding limit (HeldArray.gaveBack limit held n) := by
  match held with
  | some (.pooled ⟨some vs⟩) => exact release_holding vs
  | some (.pooled ⟨none⟩) | some (.loose _) | none => rfl

/-- The limit is never passed by giving back. -/
theorem gaveBack_le (held : Option HeldArray) (h : n ≤ limit) :
    HeldArray.gaveBack limit held n ≤ limit := by
  unfold HeldArray.gaveBack
  split
  · exact oneMore_le h
  · exact h

theorem idleAfter_le (held : Option HeldArray) (h : n ≤ limit) (s : Step) :
    HeldArray.idleAfter limit held n s ≤ limit := by
  cases s with
  | acquire => exact gaveBack_le held (Nat.le_trans (Nat.sub_le n 1) h)
  | create | drop => exact gaveBack_le held h
  | push | clear | detach => exact h
  | release =>
      match held with
      | some (.loose _) => exact oneMore_le h
      | some (.pooled _) | none => exact h

/-- What is done to an array that is held is not seen by the pool. -/
theorem pool_update (l : Lending) (holder : String) (f : HeldArray → HeldArray) :
    (l.update holder f).pool = l.pool := by
  unfold update
  split <;> rfl

/-- **What a step does to the pool**: the number of waiting arrays is the one that is said. -/
theorem pool_step {l : Lending} (waiting : l.pool = holding limit n) (holder : String) (s : Step) :
    (l.step holder s).pool =
      holding limit (HeldArray.idleAfter limit (l.held.get? holder) n s) := by
  cases s with
  | acquire =>
      show giveUp l.pool.acquire.2 _ = _
      rw [waiting, acquire_holding, giveUp_holding]
      rfl
  | create | drop =>
      show giveUp l.pool _ = _
      rw [waiting, giveUp_holding]
      rfl
  | push v => rw [step, pool_update, waiting]; rfl
  | clear => rw [step, pool_update, waiting]; rfl
  | detach =>
      rw [step, takeOut]
      -- the guard that is dropped is the one without the array
      match l.held.get? holder with
      | some (.pooled ⟨some vs⟩) | some (.pooled ⟨none⟩) | some (.loose vs) | none => exact waiting
  | release =>
      rw [step]
      match l.held.get? holder with
      | some (.loose vs) =>
          show l.pool.release vs = _
          rw [waiting, release_holding]
          rfl
      | some (.pooled g) | none => exact waiting

/-- It is not seen by other holders either. -/
theorem get?_update (l : Lending) (holder x : String) (f : HeldArray → HeldArray) :
    (l.update holder f).held.get? x =
      if x = holder then (l.held.get? holder).map f else l.held.get? x := by
  unfold update
  split
  · next a held =>
      rw [held]
      exact Store.get?_insert ..
  · next held =>
      split
      · next e => rw [e, held]; rfl
      · rfl

/-- **What a step does to the arrays held**: its holder has what the step makes of what it had, and
every other holder has what it had. -/
theorem get?_step {l : Lending} (waiting : l.pool = holding limit n) (holder : String) (s : Step)
    (x : String) :
    (l.step holder s).held.get? x =
      if x = holder then HeldArray.after (l.held.get? holder) s else l.held.get? x := by
  have unchanged {held : Option HeldArray} (same : l.held.get? holder = held) :
      l.held.get? x = if x = holder then held else l.held.get? x := by
    split
    · next e => rw [e, same]
    · rfl
  cases s with
  | acquire =>
      show (l.held.insert holder (.pooled ⟨some l.pool.acquire.1⟩)).get? x = _
      rw [waiting, acquire_holding, Store.get?_insert]
      rfl
  | create => exact Store.get?_insert ..
  | push v => exact get?_update ..
  | clear => exact get?_update ..
  | drop => exact Store.get?_erase ..
  | detach =>
      rw [step, takeOut]
      cases held : l.held.get? holder with
      | none => exact unchanged held
      | some a =>
          cases a with
          | loose vs => exact unchanged held
          | pooled g =>
              obtain ⟨_ | vs⟩ := g
              · exact unchanged held
              · exact Store.get?_insert ..
  | release =>
      rw [step]
      cases held : l.held.get? holder with
      | none => exact unchanged held
      | some a =>
          cases a with
          | loose vs => exact Store.get?_erase ..
          | pooled g => exact unchanged held

/-! ### Histories -/

/-- A step, and the holder that takes it. -/
structure Use where
  holder : String
  step   : Step

/-- The steps of one holder in a history. -/
def stepsOf (holder : String) (h : List Use) : List Step :=
  (h.filter (·.holder = holder)).map Use.step

/-- A pool without an array, and what a history of its use makes of it. -/
def after (limit : Nat) (h : List Use) : Lending :=
  h.foldl (fun l u => l.step u.holder u.step) ⟨⟨limit, []⟩, .empty⟩

/-- A history is its steps, one after the other. -/
theorem after_concat (h : List Use) (u : Use) :
    after limit (h ++ [u]) = (after limit h).step u.holder u.step := by
  simp [after]

/-- A number of empty arrays is all that ever waits. -/
theorem pool_after (limit : Nat) (h : List Use) :
    ∃ n ≤ limit, (after limit h).pool = holding limit n := by
  induction h using List.reverseRecOn with
  | nil => exact ⟨0, Nat.zero_le _, rfl⟩
  | append_singleton h u ih =>
      obtain ⟨n, le, waiting⟩ := ih
      rw [after_concat]
      exact ⟨_, idleAfter_le _ le u.step, pool_step waiting u.holder u.step⟩

/-- A holder has what its own steps make of nothing. -/
theorem get?_after (limit : Nat) (h : List Use) (holder : String) :
    (after limit h).held.get? holder = HeldArray.ofSteps (stepsOf holder h) := by
  induction h using List.reverseRecOn with
  | nil => rfl
  | append_singleton h u ih =>
      obtain ⟨n, -, waiting⟩ := pool_after limit h
      rw [after_concat, get?_step waiting]
      by_cases e : u.holder = holder
      · subst e
        rw [if_pos rfl, ih]
        simp [stepsOf, HeldArray.ofSteps]
      · rw [if_neg (Ne.symm e), ih]
        simp [stepsOf, e]

/-- What is held does not tell whether arrays are reused, or how many wait. -/
theorem get?_after_eq (limit limit' : Nat) (h : List Use) (holder : String) :
    (after limit h).held.get? holder = (after limit' h).held.get? holder := by
  rw [get?_after, get?_after]

/-- **Arrays are reused empty.**  After any history, what waits in the pool is empty and not too
much, and so is what is acquired; acquiring takes one array off, and any array that goes back, from
wherever it comes, adds one below the limit and none at it.  Each step moves the number and what its
holder has as the tables say, so a holder has what its own steps made of nothing, and what the
others have stays.  A guard that is held has its array, which goes back when the guard is dropped;
once it is taken out, dropping the guard and giving up the array both leave the pool as it was. -/
theorem arrays_reused_empty (limit : Nat) (h : List Use) (holder : String) :
    let l := after limit h
    let held := l.held.get? holder
    let n := l.pool.idle
    ((∀ array ∈ l.pool.free, array = []) ∧ n ≤ limit) ∧
    (l.pool.acquire.1 = [] ∧ l.pool.acquire.2.idle = n - 1 ∧
      (l.step holder .acquire).held.get? holder = some (.pooled ⟨some []⟩)) ∧
    (∀ array, (l.pool.release array).idle = if n < limit then n + 1 else n) ∧
    (∀ s, (l.step holder s).pool.idle = HeldArray.idleAfter limit held n s ∧
      (l.step holder s).held.get? holder = HeldArray.after held s ∧
      ∀ other ≠ holder, (l.step holder s).held.get? other = l.held.get? other) ∧
    held = HeldArray.ofSteps (stepsOf holder h) ∧
    ∀ g, held = some (.pooled g) → ∃ array, g.take.1 = some array ∧
      (g.drop l.pool).idle = (if n < limit then n + 1 else n) ∧
      g.take.2.drop l.pool = l.pool ∧ (l.step holder .detach).pool = l.pool ∧
      (l.step holder .detach).held.get? holder = some (.loose array) ∧
      ((l.step holder .detach).step holder .drop).pool = l.pool := by
  intro l held n
  obtain ⟨m, le, waiting⟩ := pool_after limit h
  obtain rfl : m = n := by rw [show n = l.pool.idle from rfl, waiting, idle_holding]
  have moved (s : Step) :
      (l.step holder s).pool = holding limit (HeldArray.idleAfter limit held n s) :=
    pool_step waiting holder s
  have left (s : Step) : (l.step holder s).held.get? holder = HeldArray.after held s := by
    rw [get?_step waiting, if_pos rfl]
  have own : held = HeldArray.ofSteps (stepsOf holder h) := get?_after limit h holder
  have acquired : l.pool.acquire = ([], holding limit (n - 1)) := by rw [waiting, acquire_holding]
  have released (array : List Value) :
      (l.pool.release array).idle = if n < limit then n + 1 else n := by
    rw [waiting, release_holding, idle_holding, oneMore]
  refine ⟨⟨fun array mem => ?_, le⟩, ⟨?_, ?_, left .acquire⟩, released, fun s => ?_, own,
    fun g guarded => ?_⟩
  · exact eq_nil_of_mem_holding (waiting ▸ mem)
  · rw [acquired]
  · rw [acquired, idle_holding]
  · refine ⟨by rw [moved, idle_holding], left s, fun other ne => ?_⟩
    rw [get?_step waiting, if_neg ne]
  · obtain ⟨array, present⟩ := HeldArray.present_ofSteps _ g (own.symm.trans guarded)
    obtain ⟨_⟩ := g
    subst present
    have detached : (l.step holder .detach).pool = l.pool := (moved .detach).trans waiting.symm
    have loose : (l.step holder .detach).held.get? holder = some (.loose array) := by
      rw [left, guarded]
      rfl
    refine ⟨array, rfl, released array, rfl, detached, loose, ?_⟩
    rw [pool_step (detached.trans waiting), loose, waiting]
    rfl

end Lending

end PreparedSql
