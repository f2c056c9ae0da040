import Mathlib.Data.List.Induction
import Mathlib.Data.List.Nodup
import PreparedSql.Proofs.Watching

/-!
# What becomes of a handle

A handle that the connection prepared is held under its own text, or it was closed once: this is
what `Accounted` says of the statements on a watched connection.  Every operation keeps it,
whatever the connection answers, because each one changes the statements in one of a few ways
(`prepare_cases`, `invalidate_cases`, `closeAll_cases`), and each of these keeps it.

* `Accounted.step`, `accounted_after`: one operation keeps the account, so any history does.
* `Accounted.preparesOnDemand`, `Accounted.closesAll`: what a prepare and what closing all does
  then.
* `handles_conserved`: all this of the statements after a history.
-/

namespace PreparedSql

variable {σ η α : Type}

/-! ### Reading the calls -/

namespace Call

/-- The handle that a prepare was answered with. -/
def issued? : Call η → Option η
  | .prepare _ (.ok x) => some x
  | _ => none

/-- The handle that was closed. -/
def closed? : Call η → Option η
  | .close x _ => some x
  | _ => none

/-- The handle that was run, and the values for its slots. -/
def ran? : Call η → Option (η × List Value)
  | .execute x args _ _ | .query x args _ _ => some (x, args)
  | _ => none

end Call

/-- The handles that were prepared, in order. -/
def issued (log : List (Call η)) : List η := log.filterMap Call.issued?

/-- The handles that were closed, in order. -/
def closed (log : List (Call η)) : List η := log.filterMap Call.closed?

theorem issued_append (log log' : List (Call η)) :
    issued (log ++ log') = issued log ++ issued log' := List.filterMap_append ..

theorem closed_append (log log' : List (Call η)) :
    closed (log ++ log') = closed log ++ closed log' := List.filterMap_append ..

/-- A handle was issued by the prepare that answered with it. -/
theorem mem_issued {log : List (Call η)} {x : η} :
    x ∈ issued log ↔ ∃ sql, Call.prepare sql (.ok x) ∈ log := by
  simp only [issued, List.mem_filterMap]
  constructor
  · rintro ⟨call, hm, e⟩
    cases call with
    | prepare sql answer =>
        cases answer with
        | ok y => cases e; exact ⟨sql, hm⟩
        | error _ => cases e
    | execute | query | close => cases e
  · rintro ⟨sql, hm⟩
    exact ⟨_, hm, rfl⟩

namespace Mode

variable (m : Mode α) (x : η) (args : List Value) (answer : Except Error α) (stale : Bool)

theorem ran?_call : (m.call x args answer stale).ran? = some (x, args) := by
  cases m <;> rfl

theorem issued?_call : (m.call x args answer stale).issued? = none := by
  cases m <;> rfl

theorem closed?_call : (m.call x args answer stale).closed? = none := by
  cases m <;> rfl

end Mode

/-! ### The handles in the slots -/

namespace PreparedStatements

/-- The handles in the slots. -/
def handles (s : PreparedStatements σ η) : List η := s.slots.entries.filterMap Prod.snd

/-- Only slots with a handle in them are counted. -/
theorem size_eq (s : PreparedStatements σ η) : s.size = s.handles.length := by
  simp only [size, handles, Store.values, List.length_filterMap_eq_countP, List.countP_map]
  rfl

theorem mem_handles {s : PreparedStatements σ η} {x : η} :
    x ∈ s.handles ↔ ∃ sql, s.held? sql = some x := by
  simp only [handles, List.mem_filterMap, held?, Option.join_eq_some_iff]
  constructor
  · rintro ⟨⟨sql, slot⟩, hm, rfl⟩
    exact ⟨sql, Store.mem_entries_iff.1 hm⟩
  · rintro ⟨sql, hx⟩
    exact ⟨_, Store.mem_entries_iff.2 hx, rfl⟩

/-- A statement that is held is one of the handles; the others are those of the other slots. -/
theorem perm_handles_of_held {s : PreparedStatements σ η} {sql : String} {x : η}
    (h : s.held? sql = some x) :
    s.handles.Perm (x :: (s.slots.erase sql).entries.filterMap Prod.snd) := by
  have slot : s.slots.get? sql = some (some x) := by simpa [held?, Option.join_eq_some_iff] using h
  exact (Store.perm_erase slot).filterMap _

end PreparedStatements

/-! ### The account -/

/-- Every run was of a handle that had been prepared for its text and not been closed. -/
def OpenWhenRun (log : List (Call (Issued η))) : Prop :=
  ∀ before call after x args, log = before ++ call :: after → call.ran? = some (x, args) →
    .prepare x.sql (.ok x) ∈ before ∧ x ∉ closed before

/-- A call more is to be of a handle that is open. -/
theorem OpenWhenRun.concat {log : List (Call (Issued η))} (h : OpenWhenRun log)
    {call : Call (Issued η)} (hc : ∀ x args, call.ran? = some (x, args) →
      .prepare x.sql (.ok x) ∈ log ∧ x ∉ closed log) : OpenWhenRun (log ++ [call]) := by
  intro before r after x args e hr
  rcases List.eq_nil_or_concat after with rfl | ⟨after', last, rfl⟩
  · obtain ⟨rfl, e'⟩ := List.append_inj' e rfl
    cases e'
    exact hc x args hr
  · rw [List.concat_eq_append, ← List.cons_append, ← List.append_assoc] at e
    exact h before r after' x args (List.append_inj' e rfl).1 hr

/-- Calls that run nothing. -/
theorem OpenWhenRun.append {log : List (Call (Issued η))} (h : OpenWhenRun log)
    {calls : List (Call (Issued η))} (hc : ∀ call ∈ calls, call.ran? = none) :
    OpenWhenRun (log ++ calls) := by
  induction calls generalizing log with
  | nil => simpa using h
  | cons call calls ih =>
      have idle : call.ran? = none := hc call (List.mem_cons_self ..)
      have next : OpenWhenRun (log ++ [call]) := h.concat fun x args e => by
        rw [idle] at e
        cases e
      rw [List.append_cons]
      exact ih next fun call' hm => hc call' (List.mem_cons_of_mem _ hm)

/-- The statements on a watched connection between two operations:
* no slot is empty, and what is in the slot of a text was prepared for it;
* a handle has its place among the calls, so no handle was prepared twice;
* the handles in the slots and those that were closed are the handles that were prepared;
* only open handles were run. -/
structure Accounted (s : PreparedStatements (Watched σ η) (Issued η)) : Prop where
  filled    : ∀ sql, s.slots.get? sql ≠ some none
  own       : ∀ sql x, s.held? sql = some x → x.sql = sql
  labelled  : ∀ sql x, Call.prepare sql (.ok x) ∈ s.log → x.sql = sql
  placed    : ∀ x ∈ issued s.log, x.place < s.log.length
  once      : (issued s.log).Nodup
  conserved : (s.handles ++ closed s.log).Perm (issued s.log)
  open_     : OpenWhenRun s.log

namespace Accounted

variable {s : PreparedStatements (Watched σ η) (Issued η)} {sql : String} {x : Issued η}

/-- Without calls there is nothing to account for. -/
theorem initial (state : σ) :
    Accounted (⟨(state, []), .empty⟩ : PreparedStatements (Watched σ η) (Issued η)) where
  filled _ h := by cases h
  own _ _ h := by cases h
  labelled _ _ h := by cases h
  placed _ h := by cases h
  once := List.nodup_nil
  conserved := .refl _
  open_ _ _ _ _ _ e := by simp [PreparedStatements.log] at e

/-- A handle is in one place only. -/
theorem nodup (hs : Accounted s) : (s.handles ++ closed s.log).Nodup :=
  hs.conserved.nodup_iff.2 hs.once

theorem mem_handles (hs : Accounted s) : x ∈ s.handles ↔ s.held? x.sql = some x := by
  rw [PreparedStatements.mem_handles]
  refine ⟨fun ⟨sql, held⟩ => ?_, fun held => ⟨_, held⟩⟩
  rwa [hs.own sql x held]

theorem prepared_of_issued (hs : Accounted s) (h : x ∈ issued s.log) :
    .prepare x.sql (.ok x) ∈ s.log := by
  obtain ⟨sql, hx⟩ := mem_issued.1 h
  exact hs.labelled _ _ hx ▸ hx

/-- What is held was prepared for its text. -/
theorem prepared_of_held (hs : Accounted s) (h : s.held? sql = some x) :
    .prepare x.sql (.ok x) ∈ s.log := by
  have hm : x ∈ s.handles := PreparedStatements.mem_handles.2 ⟨sql, h⟩
  exact hs.prepared_of_issued (hs.conserved.mem_iff.1 (List.mem_append_left _ hm))

/-- What is held was not closed. -/
theorem notMem_closed_of_held (hs : Accounted s) (h : s.held? sql = some x) :
    x ∉ closed s.log := by
  have hm : x ∈ s.handles := PreparedStatements.mem_handles.2 ⟨sql, h⟩
  exact fun hc => (List.nodup_append.1 hs.nodup).2.2 x hm x hc rfl

/-- Where no statement is held there is no slot. -/
theorem get?_eq_none (hs : Accounted s) (h : s.held? sql = none) : s.slots.get? sql = none := by
  cases e : s.slots.get? sql with
  | none => rfl
  | some slot =>
      cases slot with
      | none => exact absurd e (hs.filled sql)
      | some x => simp [PreparedStatements.held?, e] at h

/-! #### One change after the other -/

/-- A call that neither prepares nor closes, and runs only what is held. -/
theorem noted (hs : Accounted s) (state : σ) {call : Call (Issued η)}
    (hi : call.issued? = none) (hc : call.closed? = none)
    (hr : ∀ x args, call.ran? = some (x, args) → ∃ sql, s.held? sql = some x) :
    Accounted (s.noted state call) := by
  have sameIssued : issued (s.log ++ [call]) = issued s.log := by simp [issued, hi]
  have sameClosed : closed (s.log ++ [call]) = closed s.log := by simp [closed, hc]
  refine ⟨hs.filled, hs.own, fun sql x hm => ?_, fun x hx => ?_, ?_, ?_, ?_⟩
  · rcases List.mem_append.1 hm with hm | hm
    · exact hs.labelled sql x hm
    · rw [List.mem_singleton] at hm
      rw [← hm] at hi
      cases hi
  · have := hs.placed x (sameIssued ▸ hx)
    have length : (s.noted state call).log.length = s.log.length + 1 := List.length_append
    omega
  · exact sameIssued.symm ▸ hs.once
  · exact sameIssued.symm ▸ sameClosed.symm ▸ hs.conserved
  · refine hs.open_.concat fun x args e => ?_
    obtain ⟨sql, held⟩ := hr x args e
    exact ⟨hs.prepared_of_held held, hs.notMem_closed_of_held held⟩

/-- A prepare that fails leaves the slots as they were. -/
theorem refused_eq_noted (hs : Accounted s) (h : s.held? sql = none) (state : σ) (e : Error) :
    s.refused sql state e = s.noted state (.prepare sql (.error e)) := by
  simp only [PreparedStatements.refused, Store.erase_of_get?_eq_none (hs.get?_eq_none h)]
  rfl

/-- A prepare that failed leaves the account as it was. -/
theorem refused (hs : Accounted s) (h : s.held? sql = none) (state : σ) (e : Error) :
    Accounted (s.refused sql state e) := by
  rw [hs.refused_eq_noted h]
  exact hs.noted state rfl rfl fun _ _ e => by cases e

/-- A handle that is issued is one more that is held. -/
theorem prepared (hs : Accounted s) (h : s.held? sql = none) (state : σ) (handle : η) :
    Accounted (s.prepared sql state handle) := by
  have more : issued (s.prepared sql state handle).log = issued s.log ++ [s.issue sql handle] :=
    issued_append ..
  have sameClosed : closed (s.prepared sql state handle).log = closed s.log := by
    simp [PreparedStatements.prepared, PreparedStatements.noted, PreparedStatements.log, closed,
      Call.closed?]
  have length : (s.prepared sql state handle).log.length = s.log.length + 1 := List.length_append
  refine ⟨fun t => ?_, fun t x hx => ?_, fun t x hm => ?_, fun x hx => ?_, ?_, ?_, ?_⟩
  · show (s.slots.insert _ _).get? t ≠ some none
    rw [Store.get?_insert]
    split
    · simp
    · exact hs.filled t
  · rw [PreparedStatements.held?_prepared] at hx
    split at hx
    · next e => cases hx; exact e.symm
    · exact hs.own t x hx
  · rcases List.mem_append.1 hm with hm | hm
    · exact hs.labelled t x hm
    · rw [List.mem_singleton] at hm
      cases hm
      rfl
  · rw [more, List.mem_append, List.mem_singleton] at hx
    rcases hx with hx | rfl
    · have := hs.placed x hx
      omega
    · rw [length]
      exact Nat.lt_succ_self _
  · -- the new handle has a place behind all others
    rw [more, List.nodup_append]
    refine ⟨hs.once, List.nodup_singleton _, fun y hy z hz e => ?_⟩
    have := hs.placed y hy
    rw [e, List.mem_singleton.1 hz] at this
    exact Nat.lt_irrefl _ this
  · have handles : (s.prepared sql state handle).handles = s.handles ++ [s.issue sql handle] := by
      have fresh := (s.slots.get?_eq_none_iff sql).1 (hs.get?_eq_none h)
      simp [PreparedStatements.handles, PreparedStatements.prepared, Store.insert,
        Store.without_of_notMem fresh]
    rw [more, sameClosed, handles, List.append_assoc]
    refine .trans ?_ (hs.conserved.append_right _)
    rw [List.append_assoc]
    exact .append_left _ List.perm_append_comm
  · exact hs.open_.concat fun _ _ e => by cases e

/-- A handle that is closed is one less that is held. -/
theorem freed (hs : Accounted s) (h : s.held? sql = some x) (state : σ)
    (answer : Except Error Unit) : Accounted (s.freed sql state x answer) := by
  have sameIssued : issued (s.freed sql state x answer).log = issued s.log := by
    simp [PreparedStatements.freed, PreparedStatements.noted, PreparedStatements.log, issued,
      Call.issued?]
  have more : closed (s.freed sql state x answer).log = closed s.log ++ [x] := closed_append ..
  have length : (s.freed sql state x answer).log.length = s.log.length + 1 := List.length_append
  refine ⟨fun t => ?_, fun t y hy => ?_, fun t y hm => ?_, fun y hy => ?_, ?_, ?_, ?_⟩
  · show (s.slots.erase _).get? t ≠ some none
    rw [Store.get?_erase]
    split
    · simp
    · exact hs.filled t
  · rw [PreparedStatements.held?_freed] at hy
    split at hy
    · cases hy
    · exact hs.own t y hy
  · rcases List.mem_append.1 hm with hm | hm
    · exact hs.labelled t y hm
    · rw [List.mem_singleton] at hm
      cases hm
  · have := hs.placed y (sameIssued ▸ hy)
    omega
  · exact sameIssued.symm ▸ hs.once
  · rw [sameIssued, more]
    have moved : ((s.freed sql state x answer).handles ++ (closed s.log ++ [x])).Perm
        (x :: (s.freed sql state x answer).handles ++ closed s.log) := by
      rw [← List.append_assoc]
      exact List.perm_append_singleton ..
    have back := (PreparedStatements.perm_handles_of_held h).symm.append_right (closed s.log)
    exact (moved.trans back).trans hs.conserved
  · exact hs.open_.concat fun _ _ e => by cases e

end Accounted

/-! ### Closing all -/

/-- The closes of handles, as calls. -/
def closings (closes : List (Issued η × Except Error Unit)) : List (Call (Issued η)) :=
  closes.map fun p => .close p.1 p.2

/-- The failures among closes: the key of the statement, and the error. -/
def closeFailures (closes : List (Issued η × Except Error Unit)) : List String :=
  closes.filterMap fun p => PreparedStatements.closeFailure? p.1.sql p.2

/-- Closing all of them closes each once. -/
theorem closed_closings (closes : List (Issued η × Except Error Unit)) :
    closed (closings closes) = closes.map Prod.fst := by
  simp [closed, closings, List.filterMap_map, Function.comp_def, Call.closed?]

/-- One failure for each close that failed. -/
theorem length_closeFailures (closes : List (Issued η × Except Error Unit)) :
    (closeFailures closes).length = closes.countP fun p => !p.2.isOk := by
  rw [closeFailures, List.length_filterMap_eq_countP]
  refine List.countP_congr fun p _ => ?_
  rcases p with ⟨x, _ | _⟩ <;> simp [PreparedStatements.closeFailure?, Except.isOk, Except.toBool]

/-- There is no failure to report where each close succeeded. -/
theorem closeFailures_eq_nil {closes : List (Issued η × Except Error Unit)} :
    closeFailures closes = [] ↔ ∀ p ∈ closes, p.2 = .ok () := by
  simp only [closeFailures, List.filterMap_eq_nil_iff]
  refine forall₂_congr fun p _ => ?_
  rcases p with ⟨x, _ | _⟩ <;> simp [PreparedStatements.closeFailure?]

theorem issued_closings (closes : List (Issued η × Except Error Unit)) :
    issued (closings closes) = [] := by
  simp [issued, closings, List.filterMap_map, Function.comp_def, Call.issued?]

namespace PreparedStatements

variable (c : Connection σ η) (s : PreparedStatements (Watched σ η) (Issued η))

/-- Each entry is closed once, in order, whatever fails. -/
theorem closeEach_watched : ∀ (es : List (String × Option (Issued η))) (link : Watched σ η),
    (∀ sql x, (sql, some x) ∈ es → x.sql = sql) →
    ∃ closes state, closes.map Prod.fst = es.filterMap Prod.snd ∧
      closeEach c.watched es link = (closeFailures closes, state, link.2 ++ closings closes)
  | [], link, _ => ⟨[], link.1, rfl, by simp [closings]; rfl⟩
  | (sql, none) :: es, link, own => by
      obtain ⟨closes, state, handles, e⟩ :=
        closeEach_watched es link fun t x h => own t x (List.mem_cons_of_mem _ h)
      exact ⟨closes, state, handles, e⟩
  | (sql, some x) :: es, link, own => by
      obtain ⟨closes, state, handles, e⟩ :=
        closeEach_watched es (c.watched.close x link).2 fun t x h =>
          own t x (List.mem_cons_of_mem _ h)
      refine ⟨(x, (c.watched.close x link).1) :: closes, state, by simp [handles], ?_⟩
      have key : x.sql = sql := own sql x (List.mem_cons_self ..)
      rw [closeEach_some, e, ← key]
      have log : (c.watched.close x link).2.2 ++ closings closes =
          link.2 ++ closings ((x, (c.watched.close x link).1) :: closes) :=
        List.append_assoc ..
      rw [log]
      cases (c.watched.close x link).1 <;> rfl

/-- **What closing all can do**: every held handle is closed once, whatever fails, and nothing is
held after. -/
theorem closeAll_cases (hs : Accounted s) (order : Store.Order String) :
    ∃ closes state, (closes.map Prod.fst).Perm s.handles ∧
      s.closeAll c.watched order =
        (if (closeFailures closes).isEmpty then .ok ()
          else .error (.teardown (closeFailures closes)),
        ⟨(state, s.log ++ closings closes), .empty⟩) := by
  have entries := s.slots.perm_inOrder order
  have own : ∀ sql x, (sql, some x) ∈ s.slots.inOrder order → x.sql = sql := fun sql x h => by
    have slot := Store.mem_entries_iff.1 (entries.mem_iff.1 h)
    exact hs.own sql x (by rw [held?, slot]; rfl)
  obtain ⟨closes, state, handles, e⟩ :=
    closeEach_watched c (s.slots.inOrder order) s.link own
  refine ⟨closes, state, handles ▸ entries.filterMap _, ?_⟩
  unfold closeAll
  rw [e]
  rfl

end PreparedStatements

namespace Accounted

variable {s : PreparedStatements (Watched σ η) (Issued η)}

/-- Where all that was held is closed, all that was issued is closed. -/
theorem emptied (hs : Accounted s) (state : σ) {closes : List (Issued η × Except Error Unit)}
    (h : (closes.map Prod.fst).Perm s.handles) :
    Accounted (⟨(state, s.log ++ closings closes), .empty⟩ :
      PreparedStatements (Watched σ η) (Issued η)) := by
  have sameIssued : issued (s.log ++ closings closes) = issued s.log := by
    rw [issued_append, issued_closings, List.append_nil]
  refine ⟨fun _ h => (by cases h), fun _ _ h => (by cases h), fun sql x hm => ?_, fun x hx => ?_,
    ?_, ?_, ?_⟩
  · rcases List.mem_append.1 hm with hm | hm
    · exact hs.labelled sql x hm
    · simp [closings] at hm
  · have := hs.placed x (sameIssued ▸ hx)
    exact Nat.lt_of_lt_of_le this (by simp [PreparedStatements.log])
  · exact sameIssued.symm ▸ hs.once
  · show ([] ++ closed (s.log ++ closings closes)).Perm (issued (s.log ++ closings closes))
    rw [sameIssued, List.nil_append, closed_append, closed_closings]
    have back : (closed s.log ++ closes.map Prod.fst).Perm (s.handles ++ closed s.log) :=
      List.perm_append_comm.trans (h.append_right _)
    exact back.trans hs.conserved
  · exact hs.open_.append fun call hm => by
      obtain ⟨p, -, rfl⟩ := List.mem_map.1 hm
      rfl

variable (c : Connection σ η) (sql : String)

/-! #### One operation after the other -/

theorem prepare (hs : Accounted s) : Accounted (s.prepare c.watched sql).2 := by
  rcases s.prepare_cases c sql with ⟨x, -, e⟩ | ⟨h, handle, state, -, e⟩ | ⟨h, err, state, -, e⟩ <;>
    rw [e]
  · exact hs
  · exact hs.prepared h state handle
  · exact hs.refused h state err

/-- An invalidation closes what it takes out. -/
theorem invalidate (hs : Accounted s) : Accounted (s.invalidate c.watched sql) := by
  rcases s.invalidate_cases c sql with ⟨x, h, answer, state, -, e⟩ | ⟨h, e⟩ <;> rw [e]
  · exact hs.freed h state answer
  · rw [Store.erase_of_get?_eq_none (hs.get?_eq_none h)]
    exact hs

/-- So does a teardown, in any order and whatever fails. -/
theorem closeAll (hs : Accounted s) (order : Store.Order String) :
    Accounted (s.closeAll c.watched order).2 := by
  obtain ⟨closes, state, handles, e⟩ := s.closeAll_cases c hs order
  rw [e]
  exact hs.emptied state handles

end Accounted

/-! ### Histories of statements -/

/-- What can be asked of the statements on a connection. -/
inductive StatementStep where
  | prepare (sql : String)
  | invalidate (sql : String)
  | closeAll (order : Store.Order String)

namespace PreparedStatements

def step (c : Connection σ η) (s : PreparedStatements σ η) : StatementStep → PreparedStatements σ η
  | .prepare sql => (s.prepare c sql).2
  | .invalidate sql => s.invalidate c sql
  | .closeAll order => (s.closeAll c order).2

/-- The statements on a connection after a history, none held before it. -/
def after (c : Connection σ η) (link : σ) (h : List StatementStep) : PreparedStatements σ η :=
  h.foldl (step c) ⟨link, .empty⟩

theorem after_concat (c : Connection σ η) (link : σ) (h : List StatementStep) (a : StatementStep) :
    after c link (h ++ [a]) = (after c link h).step c a := by
  simp [after]

end PreparedStatements

/-- **Each step keeps the account.** -/
theorem Accounted.step {s : PreparedStatements (Watched σ η) (Issued η)} (hs : Accounted s)
    (c : Connection σ η) (a : StatementStep) : Accounted (s.step c.watched a) := by
  cases a with
  | prepare sql => exact hs.prepare c sql
  | invalidate sql => exact hs.invalidate c sql
  | closeAll order => exact hs.closeAll c order

/-- **After any history** every handle is accounted for. -/
theorem accounted_after (c : Connection σ η) (state : σ) (h : List StatementStep) :
    Accounted (PreparedStatements.after c.watched (state, []) h) := by
  induction h using List.reverseRecOn with
  | nil => exact Accounted.initial state
  | append_singleton h a ih =>
      rw [PreparedStatements.after_concat]
      exact ih.step c a

/-- Watching changes nothing over a history. -/
theorem PreparedStatements.after_unwatched (c : Connection σ η) (state : σ)
    (h : List StatementStep) : (after c.watched (state, []) h).unwatched = after c state h := by
  induction h using List.reverseRecOn with
  | nil => rfl
  | append_singleton h a ih =>
      rw [after_concat, after_concat, ← ih]
      cases a with
      | prepare sql => simp only [step, prepare_unwatched]
      | invalidate sql => simp only [step, invalidate_unwatched]
      | closeAll order => simp only [step, closeAll_unwatched]

/-! ### What is answered after a history -/

namespace PreparedStatements

variable (c : Connection σ η) (s : PreparedStatements (Watched σ η) (Issued η))

/-- A prepare asks the connection where nothing is held, and there only. A handle that it is
answered with is held from then on; a failure is passed on and changes no slot. -/
def PreparesOnDemand (sql : String) : Prop :=
  match s.held? sql with
  | some x => s.prepare c.watched sql = (.ok x, s)
  | none =>
    match c.prepare sql s.link.1 with
    | (.ok h, state) => s.prepare c.watched sql = (.ok (s.issue sql h), s.prepared sql state h)
    | (.error e, state) =>
      s.prepare c.watched sql = (.error e, s.noted state (.prepare sql (.error e)))

/-- Closing all closes each held handle once and empties the slots, whatever fails. The answer is
an error with one entry for each close that failed, where there is one. -/
def ClosesAll (order : Store.Order String) : Prop :=
  ∃ closes state, (closes.map Prod.fst).Perm s.handles ∧
    (s.closeAll c.watched order).2 = ⟨(state, s.log ++ closings closes), .empty⟩ ∧
    ((s.closeAll c.watched order).1 = .ok () ↔ ∀ p ∈ closes, p.2 = .ok ()) ∧
    ∀ e, (s.closeAll c.watched order).1 = .error e →
      e = .teardown (closeFailures closes) ∧
        (closeFailures closes).length = closes.countP fun p => !p.2.isOk

end PreparedStatements

namespace Accounted

variable {s : PreparedStatements (Watched σ η) (Issued η)} (c : Connection σ η)

/-- The connection is asked for a handle only where none is held. -/
theorem preparesOnDemand (hs : Accounted s) (sql : String) : s.PreparesOnDemand c sql := by
  unfold PreparedStatements.PreparesOnDemand
  rcases s.prepare_cases c sql with ⟨x, held, e⟩ | ⟨held, h, state, asked, e⟩ |
    ⟨held, err, state, asked, e⟩ <;> simp only [held]
  · exact e
  · simpa only [asked] using e
  · simpa only [asked, hs.refused_eq_noted held] using e

/-- **A teardown closes each held handle once**, and reports the failures. -/
theorem closesAll (hs : Accounted s) (order : Store.Order String) : s.ClosesAll c order := by
  obtain ⟨closes, state, handles, e⟩ := s.closeAll_cases c hs order
  refine ⟨closes, state, handles, by rw [e], ?_, fun err h => ?_⟩ <;> simp only [e] at *
  · rw [← closeFailures_eq_nil, ← List.isEmpty_iff]
    split <;> simp_all
  · split at h
    · cases h
    · exact ⟨by cases h; rfl, length_closeFailures closes⟩

/-- A handle that was prepared is held under its text and not closed, or closed and not held. -/
theorem held_or_closed (hs : Accounted s) {x : Issued η} (h : x ∈ issued s.log) :
    (s.held? x.sql = some x ∧ x ∉ closed s.log) ∨
      (x ∈ closed s.log ∧ ∀ sql, s.held? sql ≠ some x) := by
  rcases List.mem_append.1 (hs.conserved.mem_iff.2 h) with hm | hm
  · have held := hs.mem_handles.1 hm
    exact .inl ⟨held, hs.notMem_closed_of_held held⟩
  · exact .inr ⟨hm, fun sql held => hs.notMem_closed_of_held held hm⟩

/-- No handle is closed twice. -/
theorem nodup_closed (hs : Accounted s) : (closed s.log).Nodup := (List.nodup_append.1 hs.nodup).2.1

/-- No two of the held handles are of one text. -/
theorem nodup_texts (hs : Accounted s) : (s.handles.map Issued.sql).Nodup := by
  refine List.Nodup.map_on (fun x hx y hy e => ?_) (List.nodup_append.1 hs.nodup).1
  have held := hs.mem_handles.1 hx
  rw [e, hs.mem_handles.1 hy] at held
  exact (Option.some.inj held).symm

end Accounted

/-- **Every handle is accounted for.** After any history on any connection, every handle that was
prepared is held under its text or was closed once, and not both; a text holds at most one handle,
and `size` counts them. What can be asked next is a prepare, which asks the connection where nothing
is held, or to close all, which closes what is held. -/
theorem handles_conserved (c : Connection σ η) (state : σ) (h : List StatementStep) :
    let s := PreparedStatements.after c.watched (state, []) h
    s.unwatched = PreparedStatements.after c state h ∧
    ((issued s.log).Nodup ∧ (closed s.log).Nodup ∧ (s.handles ++ closed s.log).Perm (issued s.log) ∧
      ∀ x ∈ issued s.log, .prepare x.sql (.ok x) ∈ s.log ∧
        ((s.held? x.sql = some x ∧ x ∉ closed s.log) ∨
          (x ∈ closed s.log ∧ ∀ sql, s.held? sql ≠ some x))) ∧
    ((∀ x, x ∈ s.handles ↔ s.held? x.sql = some x) ∧ (s.handles.map Issued.sql).Nodup ∧
      s.size = s.handles.length) ∧
    (∀ sql, s.PreparesOnDemand c sql) ∧
    ∀ order, s.ClosesAll c order := by
  intro s
  have hs : Accounted s := accounted_after c state h
  exact ⟨PreparedStatements.after_unwatched c state h,
    ⟨hs.once, hs.nodup_closed, hs.conserved,
      fun x hx => ⟨hs.prepared_of_issued hx, hs.held_or_closed hx⟩⟩,
    ⟨fun x => hs.mem_handles, hs.nodup_texts, s.size_eq⟩,
    hs.preparesOnDemand c, hs.closesAll c⟩

end PreparedSql
