import PreparedSql.Proofs.CompilerHistory
import PreparedSql.Proofs.Retrying

/-!
# Histories of sessions

A session is asked to run nodes and to be closed, in any order, on a connection that answers as it
likes.  The three ways to run a node differ in how rows are answered; what they ask of the
statements is one thing (`Ask`), and so is what they do to them (`statements_perform`).

* `perform_unwatched`, `after_unwatched`: watching the connection changes nothing.
* `accounted_after`: every handle is accounted for after any calls.
* `runs_are_open`: what one call says to the connection, after any calls.  A handle that is run is
  open, a statement is run again only after a stale failure and the close of its handle, and a
  handle that was run with success is held.
-/

namespace PreparedSql

variable {κ : Type} {T : κ → Type} {σ η : Type}

/-! ### Calls -/

/-- What can be asked of a session. -/
inductive SessionCall (κ : Type) where
  | execute (ctx : Context) (n : Node) (b : Bindings)
  | fetchRows (ctx : Context) (n : Node) (b : Bindings)
  | fetchAll (k : κ) (ctx : Context) (n : Node) (b : Bindings)
  | close (order : Store.Order String)

/-- A node to run in a context, in one of the two ways, with the values for its slots. -/
structure Ask where
  {α : Type}
  mode     : Mode α
  call     : CompileCall
  bindings : Bindings

namespace SessionCall

/-- What a call is answered with. -/
def Answer (T : κ → Type) : SessionCall κ → Type
  | execute .. => Nat
  | fetchRows .. => List Row
  | fetchAll k .. => List (T k)
  | close _ => Unit

variable (T) [∀ k, Record (T k)]

/-- The node that a call runs. -/
def ask? : SessionCall κ → Option Ask
  | execute ctx n b => some ⟨.execute, ⟨ctx, none, n⟩, b⟩
  | fetchRows ctx n b => some ⟨.query, ⟨ctx, none, n⟩, b⟩
  | fetchAll k ctx n b => some ⟨.query, ⟨ctx, some (Record.destination (T k)), n⟩, b⟩
  | close _ => none

variable {T}

theorem eq_close_of_ask {call : SessionCall κ} (h : call.ask? T = none) :
    ∃ order, call = .close order := by
  cases call with
  | close order => exact ⟨order, rfl⟩
  | execute | fetchRows | fetchAll => cases h

end SessionCall

namespace Session

/-! ### One ask -/

section Asks

/-- The query of an ask with the values for its slots. -/
def compiled (s : Session T σ η) (a : Ask) : Except Error (Query × List Value) :=
  (s.compileCall a.call.context a.call.destination a.call.node a.bindings).1

/-- What an ask is answered with, and the session after it, rows as they are. -/
def runAsk (c : Connection σ η) (s : Session T σ η) (a : Ask) :
    Except Error a.α × Session T σ η :=
  s.run c (a.mode.run c) a.call.context a.call.destination a.call.node a.bindings

variable {c : Connection σ η} {s : Session T σ η} {a : Ask}

theorem runAsk_of_error {e : Error} (h : s.compiled a = .error e) :
    (s.runAsk c a).1 = .error e ∧ (s.runAsk c a).2.statements = s.statements := by
  rw [runAsk, run_of_error _ h, compileCall_snd]
  exact ⟨rfl, rfl⟩

theorem runAsk_of_ok {q : Query} {args : List Value} (h : s.compiled a = .ok (q, args)) :
    (s.runAsk c a).1 = (s.statements.runPrepared c (a.mode.run c · args) q.sql).1 ∧
      (s.runAsk c a).2.statements =
        (s.statements.runPrepared c (a.mode.run c · args) q.sql).2 := by
  rw [runAsk, run_of_ok _ h]
  exact ⟨rfl, rfl⟩

/-- What an ask leaves of the compiled queries is what compiling its node leaves. -/
theorem queries_runAsk :
    (s.runAsk c a).2.caches.queries = (s.caches.queries.answer a.call).2 := by
  cases h : s.compiled a with
  | error e => rw [runAsk, run_of_error _ h, compileCall_snd]; rfl
  | ok qa => rw [runAsk, run_of_ok _ h, compileCall_snd]; rfl

end Asks

/-! ### One call -/

variable [∀ k, Record (T k)]

section Talks

variable {c : Connection σ η} {s s' : Session T (Watched σ η) (Issued η)} {call : SessionCall κ}

variable (c s) in
/-- What a call says to the connection: an exchange about the text of its query, or nothing where
there is no query with values; and to close the session, what runs nothing. -/
def Talk (s' : Session T (Watched σ η) (Issued η)) (call : SessionCall κ)
    (talk : List (Call (Issued η))) : Prop :=
  match call.ask? T with
  | none => Quiet talk
  | some a =>
    match s.compiled a with
    | .error _ => talk = []
    | .ok (q, args) => Exchange c a.mode q.sql args s.statements s'.statements talk

/-- After a run that succeeded, its handle is held. -/
theorem Talk.held_of_served {talk : List (Call (Issued η))} (h : s.Talk c s' call talk)
    (hs' : Accounted s'.statements) {r : Call (Issued η)} (hr : r ∈ talk) {x : Issued η}
    (served : r.served? = some x) : s'.statements.held? x.sql = some x := by
  have idle : ¬ Quiet talk := fun quiet => by
    rw [quiet.served?_eq_none hr] at served
    cases served
  unfold Talk at h
  split at h
  · exact absurd h idle
  · split at h
    · exact absurd (h ▸ List.forall_mem_nil _) idle
    · have held := h.held_of_served hr served
      rwa [hs'.own _ x held]

end Talks

variable [DecidableEq κ]

section Calls

variable (c : Connection σ η) (s : Session T σ η)

/-- The answer to a call, and the session after it. -/
def perform : (call : SessionCall κ) → Except Error (call.Answer T) × Session T σ η
  | .execute ctx n b => s.execute c ctx n b
  | .fetchRows ctx n b => s.fetchRows c ctx n b
  | .fetchAll k ctx n b => s.fetchAll c k ctx n b
  | .close order => s.close c order

/-- The session after calls. -/
def after (calls : List (SessionCall κ)) : Session T σ η :=
  calls.foldl (fun s call => (s.perform c call).2) s

theorem after_concat (calls : List (SessionCall κ)) (call : SessionCall κ) :
    s.after c (calls ++ [call]) = ((s.after c calls).perform c call).2 := by
  simp [after]

end Calls

section Step

variable {c : Connection σ η} {s : Session T σ η} {call : SessionCall κ} {a : Ask}

/-- A call runs its ask; its own part is the answer. -/
theorem perform_of_ask (h : call.ask? T = some a) :
    (s.perform c call).2.statements = (s.runAsk c a).2.statements ∧
      (s.perform c call).2.caches.queries = (s.runAsk c a).2.caches.queries := by
  cases call with
  | execute | fetchRows => cases h; exact ⟨rfl, rfl⟩
  | fetchAll k ctx n b =>
      cases h
      rcases e : s.run c c.query ctx (some (Record.destination (T k))) n b with ⟨err | rows, s'⟩
      · rw [perform, fetchAll_of_error (congrArg Prod.fst e)]
        exact ⟨rfl, rfl⟩
      · rw [perform, fetchAll_of_ok e, runAsk, Mode.run, e]
        exact ⟨rfl, rfl⟩
  | close => cases h

/-- A call whose ask fails fails with its error. -/
theorem perform_of_failed (h : call.ask? T = some a) {e : Error}
    (failed : (s.runAsk c a).1 = .error e) : (s.perform c call).1 = .error e := by
  cases call with
  | execute | fetchRows => cases h; exact failed
  | fetchAll => cases h; exact congrArg Prod.fst (fetchAll_of_error failed)
  | close => cases h

/-- A call that fails to get its query or its values says so, and touches no statement. -/
theorem perform_of_error (h : call.ask? T = some a) {e : Error} (he : s.compiled a = .error e) :
    (s.perform c call).1 = .error e ∧ (s.perform c call).2.statements = s.statements :=
  ⟨perform_of_failed h (runAsk_of_error he).1,
    (perform_of_ask h).1.trans (runAsk_of_error he).2⟩

end Step

/-! ### Watching changes nothing -/

section Unwatched

variable (c : Connection σ η) (s : Session T (Watched σ η) (Issued η))

theorem perform_unwatched (call : SessionCall κ) :
    s.unwatched.perform c call =
      ((s.perform c.watched call).1, (s.perform c.watched call).2.unwatched) := by
  cases call with
  | execute ctx n b => exact run_unwatched c s .execute ctx none n b
  | fetchRows ctx n b => exact run_unwatched c s .query ctx none n b
  | fetchAll k ctx n b =>
      have ran : s.unwatched.run c c.query ctx (some (Record.destination (T k))) n b = _ :=
        run_unwatched c s .query ctx (some (Record.destination (T k))) n b
      simp only [perform, fetchAll, ran]
      simp only [Mode.run]
      rcases s.run c.watched c.watched.query ctx (some (Record.destination (T k))) n b with
        ⟨_ | rows, s'⟩ <;> rfl
  | close order =>
      have closed := PreparedStatements.closeAll_unwatched c s.statements order
      simp only [perform, close, unwatched, closed]
      rfl

theorem after_unwatched (calls : List (SessionCall κ)) :
    (s.after c.watched calls).unwatched = s.unwatched.after c calls := by
  induction calls using List.reverseRecOn with
  | nil => rfl
  | append_singleton calls call ih =>
      rw [after_concat, after_concat, ← ih, perform_unwatched]

end Unwatched

/-! ### What is said to the connection -/

section History

variable {c : Connection σ η} {s : Session T (Watched σ η) (Issued η)}

/-- One call keeps the account of the handles. -/
theorem accounted_perform (hs : Accounted s.statements) (call : SessionCall κ) :
    Accounted (s.perform c.watched call).2.statements := by
  cases h : call.ask? T with
  | none =>
      obtain ⟨order, rfl⟩ := SessionCall.eq_close_of_ask h
      exact hs.closeAll c order
  | some a =>
      rw [(perform_of_ask h).1]
      cases e : s.compiled a with
      | error err => rw [(runAsk_of_error e).2]; exact hs
      | ok qa => rw [(runAsk_of_ok e).2]; exact hs.runPrepared c _ a.mode qa.2

theorem accounted_after (hs : Accounted s.statements) (calls : List (SessionCall κ)) :
    Accounted (s.after c.watched calls).statements := by
  induction calls using List.reverseRecOn with
  | nil => exact hs
  | append_singleton calls call ih =>
      rw [after_concat]
      exact accounted_perform ih call

theorem talk_perform (hs : Accounted s.statements) (call : SessionCall κ) :
    ∃ talk, (s.perform c.watched call).2.statements.log = s.statements.log ++ talk ∧
      s.Talk c (s.perform c.watched call).2 call talk := by
  unfold Talk
  cases h : call.ask? T with
  | none =>
      obtain ⟨order, rfl⟩ := SessionCall.eq_close_of_ask h
      obtain ⟨closes, state, -, e⟩ := s.statements.closeAll_cases c hs order
      refine ⟨closings closes, ?_, fun call hm => ?_⟩
      · show (s.statements.closeAll c.watched order).2.log = _
        rw [e]
        rfl
      · obtain ⟨p, -, rfl⟩ := List.mem_map.1 hm
        rfl
  | some a =>
      simp only [(perform_of_ask h).1]
      cases e : s.compiled a with
      | error err => exact ⟨[], by rw [(runAsk_of_error e).2, List.append_nil], rfl⟩
      | ok qa =>
          simp only [(runAsk_of_ok e).2]
          exact PreparedStatements.exchange c s.statements qa.1.sql a.mode qa.2 hs

end History

/-- **What is run is open.** After any calls on any connection, and one call more: every handle that
was run had been prepared for its text and not been closed; no handle was closed twice; what the
last call said to the connection ran its statement once at most, or a second time behind a stale
failure, when the handle that failed had been taken out and closed; and where a run of it succeeded,
the handle is the one that is held for its text. -/
theorem runs_are_open (c : Connection σ η) (state : σ) (caches : Caches T)
    (past : List (SessionCall κ)) (call : SessionCall κ) :
    let s := Session.after c.watched ⟨caches, ⟨(state, []), .empty⟩⟩ past
    let s' := (s.perform c.watched call).2
    (s.unwatched = Session.after c ⟨caches, ⟨state, .empty⟩⟩ past ∧
      s.unwatched.perform c call = ((s.perform c.watched call).1, s'.unwatched)) ∧
    OpenWhenRun s'.statements.log ∧ (closed s'.statements.log).Nodup ∧
    ∃ talk, s'.statements.log = s.statements.log ++ talk ∧ s.Talk c s' call talk ∧
      ∀ r ∈ talk, ∀ x, r.served? = some x → s'.statements.held? x.sql = some x := by
  intro s s'
  have hs : Accounted s.statements := accounted_after (.initial state) past
  have hs' : Accounted s'.statements := accounted_perform hs call
  obtain ⟨talk, log, talks⟩ := talk_perform (c := c) hs call
  exact ⟨⟨after_unwatched c _ past, perform_unwatched c s call⟩, hs'.open_, hs'.nodup_closed,
    talk, log, talks, fun r hr x served => talks.held_of_served hs' hr served⟩

end Session

end PreparedSql
