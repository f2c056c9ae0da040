import PreparedSql.Proofs.Handles

/-!
# A statement that is run again

To run the statement of a text, a held handle is run, or one that is prepared now.  Where the
connection calls the failure stale, the handle is taken out of its slot and closed, and the text is
given one more run (`runPrepared_cases`).

* `Exchange` is what is said to the connection on the way: nothing is run, one handle is run, or a
  second run stands behind a stale failure and the close of the handle that failed.
* `Accounted.runPrepared`: the account of the handles is kept.
* `held?_runPrepared`: where a run succeeded, its handle is the one that is held.
-/

namespace PreparedSql

variable {σ η α : Type}

/-- Calls that run nothing. -/
def Quiet (calls : List (Call η)) : Prop := ∀ call ∈ calls, call.ran? = none

/-- The handle of a run that succeeded. -/
def Call.served? : Call η → Option η
  | .execute x _ (.ok _) _ | .query x _ (.ok _) _ => some x
  | _ => none

/-- What is run is one of the runs. -/
theorem Call.ran?_of_served? {call : Call η} {x : η} (h : call.served? = some x) :
    ∃ args, call.ran? = some (x, args) := by
  cases call with
  | execute y args answer =>
      cases answer with
      | ok => exact ⟨args, congrArg (Option.map (·, args)) h⟩
      | error => cases h
  | query y args answer =>
      cases answer with
      | ok => exact ⟨args, congrArg (Option.map (·, args)) h⟩
      | error => cases h
  | prepare | close => cases h

/-- Where nothing is run, nothing is served. -/
theorem Quiet.served?_eq_none {calls : List (Call η)} (h : Quiet calls) {call : Call η}
    (hm : call ∈ calls) : call.served? = none := by
  cases e : call.served? with
  | none => rfl
  | some x =>
      obtain ⟨args, ran⟩ := Call.ran?_of_served? e
      rw [h call hm] at ran
      cases ran

namespace Mode

variable (m : Mode α) (x : η) (args : List Value) (stale : Bool)

theorem served?_call_ok (v : α) : (m.call x args (.ok v) stale).served? = some x := by
  cases m <;> rfl

theorem served?_call_error (e : Error) : (m.call x args (.error e) stale).served? = none := by
  cases m <;> rfl

/-- A call serves the handle that it ran, and only if it succeeded. -/
theorem served?_call {answer : Except Error α} {y : η}
    (h : (m.call x args answer stale).served? = some y) : y = x ∧ ∃ v, answer = .ok v := by
  cases answer with
  | ok v => exact ⟨(Option.some.inj ((m.served?_call_ok x args stale v).symm.trans h)).symm, v, rfl⟩
  | error e => rw [served?_call_error] at h; cases h

end Mode

namespace PreparedStatements

section Runs

variable (c : Connection σ η) (s : PreparedStatements (Watched σ η) (Issued η)) (sql : String)
  (m : Mode α) (args : List Value)

/-- The statement of a text run once, on a watched connection. -/
abbrev watchedOnce : Except Error α × PreparedStatements (Watched σ η) (Issued η) :=
  s.runOnce c.watched (m.run c.watched · args) sql

/-- The statement of a text run, and again if it was stale, on a watched connection. -/
abbrev watchedRun : Except Error α × PreparedStatements (Watched σ η) (Issued η) :=
  s.runPrepared c.watched (m.run c.watched · args) sql

/-- After a run of a handle. -/
def ran (state : σ) (x : Issued η) (answer : Except Error α) :
    PreparedStatements (Watched σ η) (Issued η) :=
  s.noted state (m.call x args answer (c.callsStale state answer))

/-- To run a statement does not change which statements are held. -/
theorem held?_ran (state : σ) (x : Issued η) (answer : Except Error α) :
    (s.ran c m args state x answer).held? sql = s.held? sql := rfl

theorem log_ran (state : σ) (x : Issued η) (answer : Except Error α) :
    (s.ran c m args state x answer).log =
      s.log ++ [m.call x args answer (c.callsStale state answer)] := rfl

/-- **What one run can do**: the statement is refused, or run. -/
theorem runOnce_cases :
    (∃ e s', s.prepare c.watched sql = (.error e, s') ∧
      s.watchedOnce c sql m args = (.error e, s')) ∨
    ∃ x s' answer state, s.prepare c.watched sql = (.ok x, s') ∧
      s.watchedOnce c sql m args = (answer, s'.ran c m args state x answer) := by
  rcases e : s.prepare c.watched sql with ⟨err | x, s'⟩
  · exact .inl ⟨err, s', rfl, runOnce_of_error _ e⟩
  · exact .inr ⟨x, s', _, _, rfl, runOnce_of_ok _ e (m.run_watched c x args s'.link)⟩

/-- **What a run with its repetition can do**: the statement is refused; it is run, and what comes
of it is not a stale failure; or it fails as stale, is closed, and the text is run once more. -/
theorem runPrepared_cases :
    (∃ e s', s.prepare c.watched sql = (.error e, s') ∧
      s.watchedRun c sql m args = (.error e, s')) ∨
    (∃ x s' answer state, s.prepare c.watched sql = (.ok x, s') ∧
      c.callsStale state answer = false ∧
      s.watchedRun c sql m args = (answer, s'.ran c m args state x answer)) ∨
    ∃ x s' e state closing state', s.prepare c.watched sql = (.ok x, s') ∧
      c.isStale state e = true ∧
      s.watchedRun c sql m args =
        ((s'.ran c m args state x (.error e)).freed sql state' x closing).watchedOnce c sql m
          args := by
  rcases e : s.prepare c.watched sql with ⟨err | x, s'⟩
  · exact .inl ⟨err, s', rfl, runPrepared_of_error _ e⟩
  · obtain ⟨answer, state, ran⟩ : ∃ answer state, m.run c.watched x args s'.link =
        (answer, (s'.ran c m args state x answer).link) := ⟨_, _, m.run_watched c x args s'.link⟩
    -- what is asked of the connection here is what the watched one noted with the run
    by_cases stale : ∃ err, answer = .error err ∧ c.isStale state err = true
    · obtain ⟨err, rfl, stale⟩ := stale
      have held := (held?_ran c s' sql m args state x (.error err)).trans (held?_of_prepare e)
      obtain ⟨closing, state', freed⟩ : ∃ closing state',
          (s'.ran c m args state x (.error err)).invalidate c.watched sql =
            (s'.ran c m args state x (.error err)).freed sql state' x closing :=
        ⟨_, _, invalidate_of_held held⟩
      refine .inr (.inr ⟨x, s', err, state, closing, state', rfl, stale, ?_⟩)
      rw [← freed]
      exact runPrepared_of_stale _ e ran stale
    · have last : ∀ err, answer = .error err → c.isStale state err = false := by simpa using stale
      refine .inr (.inl ⟨x, s', answer, state, rfl, ?_, runPrepared_of_ok _ e ran last⟩)
      cases answer with
      | ok v => rfl
      | error err => exact last err rfl

end Runs

end PreparedStatements

/-! ### The account is kept -/

namespace Accounted

variable {s : PreparedStatements (Watched σ η) (Issued η)} (c : Connection σ η) (sql : String)
  (m : Mode α) (args : List Value)

theorem of_prepare {c : Connection σ η} {sql : String} (hs : Accounted s)
    {answer : Except Error (Issued η)} {s' : PreparedStatements (Watched σ η) (Issued η)}
    (h : s.prepare c.watched sql = (answer, s')) : Accounted s' := by
  have := hs.prepare c sql
  rwa [h] at this

/-- A held handle is run. -/
theorem ran (hs : Accounted s) {x : Issued η} (h : s.held? sql = some x) (state : σ)
    (answer : Except Error α) : Accounted (s.ran c m args state x answer) := by
  refine hs.noted state (m.issued?_call ..) (m.closed?_call ..) fun y args' e => ?_
  rw [m.ran?_call] at e
  cases e
  exact ⟨sql, h⟩

/-- The account is kept by a run, however it ends. -/
theorem runOnce (hs : Accounted s) : Accounted (s.watchedOnce c sql m args).2 := by
  rcases s.runOnce_cases c sql m args with ⟨e, s', prepared, h⟩ |
    ⟨x, s', answer, state, prepared, h⟩ <;> rw [h]
  · exact hs.of_prepare prepared
  · exact (hs.of_prepare prepared).ran c sql m args (PreparedStatements.held?_of_prepare prepared)
      state answer

/-- And by a second run behind a stale one. -/
theorem runPrepared (hs : Accounted s) : Accounted (s.watchedRun c sql m args).2 := by
  rcases s.runPrepared_cases c sql m args with ⟨e, s', prepared, h⟩ |
    ⟨x, s', answer, state, prepared, -, h⟩ |
    ⟨x, s', e, state, closing, state', prepared, -, h⟩ <;> rw [h]
  · exact hs.of_prepare prepared
  · exact (hs.of_prepare prepared).ran c sql m args (PreparedStatements.held?_of_prepare prepared)
      state answer
  · have held := PreparedStatements.held?_of_prepare prepared
    have failed := (hs.of_prepare prepared).ran c sql m args held state (.error e)
    exact (failed.freed held state' closing).runOnce c sql m args

end Accounted

/-! ### What is said to the connection -/

/-- One run at most, and nothing said behind it. The handle that was run is held after. -/
inductive OneRun (m : Mode α) (sql : String) (args : List Value)
    (s' : PreparedStatements (Watched σ η) (Issued η)) : List (Call (Issued η)) → Prop where
  | none {opening} (quiet : Quiet opening) : OneRun m sql args s' opening
  | one {opening} (quiet : Quiet opening) {x} (own : x.sql = sql) (held : s'.held? sql = some x)
      (answer : Except Error α) (stale : Bool) :
      OneRun m sql args s' (opening ++ [m.call x args answer stale])

/-- What is said to run the statement of a text, where the statements were `s` before and are `s'`
after. A second run is of a statement that was prepared behind the close of the first, when its
handle was held nowhere any more. -/
inductive Exchange (c : Connection σ η) (m : Mode α) (sql : String) (args : List Value)
    (s s' : PreparedStatements (Watched σ η) (Issued η)) : List (Call (Issued η)) → Prop where
  | refused {opening} (quiet : Quiet opening) : Exchange c m sql args s s' opening
  | last {opening} (quiet : Quiet opening) {x} (own : x.sql = sql) (held : s'.held? sql = some x)
      (answer : Except Error α) :
      Exchange c m sql args s s' (opening ++ [m.call x args answer false])
  | again {opening rest} (quiet : Quiet opening) {x} (own : x.sql = sql) (e : Error)
      (closing : Except Error Unit) {mid : PreparedStatements (Watched σ η) (Issued η)}
      (said : mid.log = s.log ++ (opening ++ [m.call x args (.error e) true, .close x closing]))
      (gone : ∀ t, mid.held? t ≠ some x)
      (next : s' = (mid.watchedOnce c sql m args).2) (more : OneRun m sql args s' rest) :
      Exchange c m sql args s s'
        (opening ++ [m.call x args (.error e) true, .close x closing] ++ rest)

namespace OneRun

variable {m : Mode α} {sql : String} {args : List Value}
  {s' : PreparedStatements (Watched σ η) (Issued η)} {talk : List (Call (Issued η))}

/-- What was served is held after it. -/
theorem held_of_served (h : OneRun m sql args s' talk) {r : Call (Issued η)} (hr : r ∈ talk)
    {x : Issued η} (served : r.served? = some x) : s'.held? sql = some x := by
  cases h with
  | none quiet => rw [quiet.served?_eq_none hr] at served; cases served
  | one quiet own held answer stale =>
      rcases List.mem_append.1 hr with hr | hr
      · rw [quiet.served?_eq_none hr] at served; cases served
      · rw [List.mem_singleton.1 hr] at served
        exact (m.served?_call _ _ _ served).1 ▸ held

end OneRun

/-- After a run that succeeded, its handle is held. -/
theorem Exchange.held_of_served {c : Connection σ η} {m : Mode α} {sql : String} {args : List Value}
    {s s' : PreparedStatements (Watched σ η) (Issued η)} {talk : List (Call (Issued η))}
    (h : Exchange c m sql args s s' talk) {r : Call (Issued η)} (hr : r ∈ talk) {x : Issued η}
    (served : r.served? = some x) : s'.held? sql = some x := by
  cases h with
  | refused quiet => exact OneRun.held_of_served (.none quiet : OneRun m sql args s' _) hr served
  | last quiet own held answer =>
      exact (OneRun.one quiet own held answer false).held_of_served hr served
  | again quiet own e closing said gone next more =>
      rcases List.mem_append.1 hr with hr | hr
      · exfalso
        rcases List.mem_append.1 hr with hr | hr
        · rw [quiet.served?_eq_none hr] at served; cases served
        · rw [List.mem_pair] at hr
          rcases hr with rfl | rfl
          · rw [m.served?_call_error] at served; cases served
          · cases served
      · exact more.held_of_served hr served

namespace PreparedStatements

variable {c : Connection σ η} {s s' : PreparedStatements (Watched σ η) (Issued η)} {sql : String}

/-- A prepare runs nothing. -/
theorem quiet_of_prepare {answer : Except Error (Issued η)}
    (h : s.prepare c.watched sql = (answer, s')) :
    ∃ opening, Quiet opening ∧ s'.log = s.log ++ opening := by
  rcases s.prepare_cases c sql with ⟨y, -, e⟩ | ⟨-, y, state, -, e⟩ | ⟨-, err, state, -, e⟩ <;>
    rw [e] at h <;> cases h
  · exact ⟨[], List.forall_mem_nil _, (List.append_nil _).symm⟩
  · exact ⟨_, List.forall_mem_singleton.2 rfl, rfl⟩
  · exact ⟨_, List.forall_mem_singleton.2 rfl, rfl⟩

variable (c s sql) (m : Mode α) (args : List Value)

/-- A run is at most one prepare and one call. -/
theorem oneRun (hs : Accounted s) :
    ∃ talk, (s.watchedOnce c sql m args).2.log = s.log ++ talk ∧
      OneRun m sql args (s.watchedOnce c sql m args).2 talk := by
  rcases s.runOnce_cases c sql m args with ⟨e, s', prepared, h⟩ |
    ⟨x, s', answer, state, prepared, h⟩ <;> rw [h] <;>
    obtain ⟨opening, quiet, log⟩ := quiet_of_prepare prepared
  · exact ⟨opening, log, .none quiet⟩
  · have held := (held?_ran c s' sql m args state x answer).trans (held?_of_prepare prepared)
    have own := (hs.of_prepare prepared).own sql x held
    refine ⟨_, ?_, .one quiet own held answer (c.callsStale state answer)⟩
    rw [log_ran, log, List.append_assoc]

/-- **One retry at most**: what is said to run the statement of a text is an exchange. -/
theorem exchange (hs : Accounted s) :
    ∃ talk, (s.watchedRun c sql m args).2.log = s.log ++ talk ∧
      Exchange c m sql args s (s.watchedRun c sql m args).2 talk := by
  rcases s.runPrepared_cases c sql m args with ⟨e, s', prepared, h⟩ |
    ⟨x, s', answer, state, prepared, fresh, h⟩ |
    ⟨x, s', e, state, closing, state', prepared, stale, h⟩ <;> rw [h] <;>
    obtain ⟨opening, quiet, log⟩ := quiet_of_prepare prepared
  · exact ⟨opening, log, .refused quiet⟩
  · have held := (held?_ran c s' sql m args state x answer).trans (held?_of_prepare prepared)
    have own := (hs.of_prepare prepared).own sql x held
    refine ⟨_, ?_, .last quiet own held answer⟩
    rw [log_ran, log, List.append_assoc, fresh]
  · have held := held?_of_prepare prepared
    have own := (hs.of_prepare prepared).own sql x held
    have failed := (hs.of_prepare prepared).ran c sql m args held state (.error e)
    have freed := failed.freed held state' closing
    obtain ⟨rest, more, one⟩ := oneRun c _ sql m args freed
    have said : ((s'.ran c m args state x (.error e)).freed sql state' x closing).log =
        s.log ++ (opening ++ [m.call x args (.error e) true, .close x closing]) := by
      show (s'.ran c m args state x (.error e)).log ++ [.close x closing] = _
      rw [log_ran, log, List.append_assoc, List.append_assoc, Connection.callsStale, stale]
      rfl
    refine ⟨_, ?_, .again quiet own e closing said (fun t => ?_) rfl one⟩
    · rw [more, said, List.append_assoc]
    · -- its own slot is empty, and in no other can it be
      rw [held?_freed]
      split
      · exact nofun
      · next other => exact fun elsewhere => other ((failed.own t x elsewhere).symm.trans own)

end PreparedStatements

/-! ### What succeeds -/

/-- The runs that succeeded, in order. -/
def serves (log : List (Call η)) : List (Call η) := log.filter fun r => r.served?.isSome

/-- What was served so far is not changed by later calls. -/
theorem serves_append (log log' : List (Call η)) :
    serves (log ++ log') = serves log ++ serves log' := List.filter_append ..

theorem Quiet.serves_eq_nil {calls : List (Call η)} (h : Quiet calls) : serves calls = [] :=
  List.filter_eq_nil_iff.2 fun call hm => by simp [h.served?_eq_none hm]

theorem Mode.serves_call_ok (m : Mode α) (x : η) (args : List Value) (v : α) (stale : Bool) :
    serves [m.call x args (.ok v) stale] = [m.call x args (.ok v) stale] := by
  simp [serves, m.served?_call_ok]

theorem Mode.serves_call_error (m : Mode α) (x : η) (args : List Value) (e : Error) (stale : Bool) :
    serves [m.call x args (.error e) stale] = [] := by
  simp [serves, m.served?_call_error]

/-- The runs that succeeded on the way to an answer: the one that it is the answer of. -/
inductive Serves (m : Mode α) (sql : String) (args : List Value) :
    Except Error α → List (Call (Issued η)) → Prop where
  | failed (e : Error) : Serves m sql args (.error e) []
  | answered {x : Issued η} (own : x.sql = sql) (v : α) :
      Serves m sql args (.ok v) [m.call x args (.ok v) false]

namespace PreparedStatements

variable {s : PreparedStatements (Watched σ η) (Issued η)} (c : Connection σ η) (sql : String)
  (m : Mode α) (args : List Value)

/-- A prepare serves nothing. -/
theorem serves_of_prepare {c : Connection σ η} {sql : String} {answer : Except Error (Issued η)}
    {s' : PreparedStatements (Watched σ η) (Issued η)}
    (h : s.prepare c.watched sql = (answer, s')) : serves s'.log = serves s.log := by
  obtain ⟨opening, quiet, log⟩ := quiet_of_prepare h
  rw [log, serves_append, quiet.serves_eq_nil, List.append_nil]

/-- A run is among those that succeeded, or it failed. -/
theorem serves_ran {x : Issued η} (own : x.sql = sql) (state : σ) (answer : Except Error α) :
    ∃ l, serves (s.ran c m args state x answer).log = serves s.log ++ l ∧
      Serves m sql args answer l := by
  cases answer with
  | error e => exact ⟨[], by rw [log_ran, serves_append, m.serves_call_error], .failed e⟩
  | ok v => exact ⟨_, by rw [log_ran, serves_append, m.serves_call_ok]; rfl, .answered own v⟩

/-- A run serves once if it succeeds, and else it does not. -/
theorem serves_runOnce (hs : Accounted s) :
    ∃ l, serves (s.watchedOnce c sql m args).2.log = serves s.log ++ l ∧
      Serves m sql args (s.watchedOnce c sql m args).1 l := by
  rcases s.runOnce_cases c sql m args with ⟨e, s', prepared, h⟩ |
    ⟨x, s', answer, state, prepared, h⟩ <;> rw [h, ← serves_of_prepare prepared]
  · exact ⟨[], (List.append_nil _).symm, .failed e⟩
  · have own := (hs.of_prepare prepared).own sql x (held?_of_prepare prepared)
    exact serves_ran c sql m args own state answer

/-- **One success for an answer**: where a value is answered, one run succeeded, and its value is
the answer; where an error is answered, none did. -/
theorem serves_runPrepared (hs : Accounted s) :
    ∃ l, serves (s.watchedRun c sql m args).2.log = serves s.log ++ l ∧
      Serves m sql args (s.watchedRun c sql m args).1 l := by
  rcases s.runPrepared_cases c sql m args with ⟨e, s', prepared, h⟩ |
    ⟨x, s', answer, state, prepared, -, h⟩ |
    ⟨x, s', e, state, closing, state', prepared, -, h⟩ <;> rw [h, ← serves_of_prepare prepared]
  · exact ⟨[], (List.append_nil _).symm, .failed e⟩
  · have own := (hs.of_prepare prepared).own sql x (held?_of_prepare prepared)
    exact serves_ran c sql m args own state answer
  · have held := held?_of_prepare prepared
    have failed := (hs.of_prepare prepared).ran c sql m args held state (.error e)
    obtain ⟨l, more, answer⟩ := serves_runOnce c sql m args (failed.freed held state' closing)
    refine ⟨l, ?_, answer⟩
    have none : serves ((s'.ran c m args state x (.error e)).freed sql state' x closing).log =
        serves s'.log := by
      show serves ((s'.ran c m args state x (.error e)).log ++ [.close x closing]) = _
      rw [log_ran, serves_append, serves_append, m.serves_call_error,
        Quiet.serves_eq_nil (List.forall_mem_singleton.2 rfl), List.append_nil, List.append_nil]
    rw [more, none]

end PreparedStatements

end PreparedSql
