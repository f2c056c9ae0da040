import PreparedSql.Session

/-!
# A connection that is watched

`Connection.watched` is a connection with the calls that it answered beside its state.  A handle
carries the text that it was prepared for and its place among the calls, so no two prepares give
the same handle, whatever the connection answers.

Watching changes nothing: `PreparedStatements.unwatched` and `Session.unwatched` take off what was
noted, and every operation on a watched connection is the operation on the connection itself
(`prepare_unwatched`, `invalidate_unwatched`, `closeAll_unwatched`, `runPrepared_unwatched`).
-/

namespace PreparedSql

/-- A call with its answer.  To a run belongs whether the connection calls its failure stale. -/
inductive Call (η : Type) where
  | prepare (sql : String) (answer : Except Error η)
  | execute (handle : η) (args : List Value) (answer : Except Error Nat) (stale : Bool)
  | query (handle : η) (args : List Value) (answer : Except Error (List Row)) (stale : Bool)
  | close (handle : η) (answer : Except Error Unit)

/-- A handle with its place among the calls and the text that it was prepared for. -/
structure Issued (η : Type) where
  place  : Nat
  sql    : String
  handle : η

/-- The state of a watched connection: its own, and the calls so far. -/
abbrev Watched (σ η : Type) := σ × List (Call (Issued η))

variable {σ η α : Type}

namespace Connection

/-- Whether an answer is a failure that the connection calls stale. -/
def callsStale (c : Connection σ η) (state : σ) : Except Error α → Bool
  | .ok _ => false
  | .error e => c.isStale state e

/-- The connection with the calls that it answered. -/
def watched (c : Connection σ η) : Connection (Watched σ η) (Issued η) where
  prepare sql s :=
    let (answer, state) := c.prepare sql s.1
    let answer := answer.map fun h => ⟨s.2.length, sql, h⟩
    (answer, state, s.2 ++ [.prepare sql answer])
  abandon sql s := (c.abandon sql s.1, s.2)
  execute x args s :=
    let (answer, state) := c.execute x.handle args s.1
    (answer, state, s.2 ++ [.execute x args answer (c.callsStale state answer)])
  query x args s :=
    let (answer, state) := c.query x.handle args s.1
    (answer, state, s.2 ++ [.query x args answer (c.callsStale state answer)])
  close x s :=
    let (answer, state) := c.close x.handle s.1
    (answer, state, s.2 ++ [.close x answer])
  isStale s := c.isStale s.1

end Connection

/-- The two ways to run a statement, by what is answered. -/
inductive Mode : Type → Type where
  | execute : Mode Nat
  | query : Mode (List Row)

namespace Mode

def run : Mode α → Connection σ η → η → List Value → σ → Except Error α × σ
  | .execute, c => c.execute
  | .query, c => c.query

/-- A run as a call. -/
def call : Mode α → η → List Value → Except Error α → Bool → Call η
  | .execute => .execute
  | .query => .query

/-- Running adds one call to the record, and its answer is what the connection answers. -/
theorem run_watched (m : Mode α) (c : Connection σ η) (x : Issued η) (args : List Value)
    (s : Watched σ η) :
    m.run c.watched x args s = ((m.run c x.handle args s.1).1, (m.run c x.handle args s.1).2,
      s.2 ++ [m.call x args (m.run c x.handle args s.1).1
        (c.callsStale (m.run c x.handle args s.1).2 (m.run c x.handle args s.1).1)]) := by
  cases m <;> rfl

end Mode

namespace PreparedStatements

section Noted

variable (s : PreparedStatements (Watched σ η) (Issued η)) (sql : String) (state : σ)

/-- The calls that the connection answered so far. -/
def log : List (Call (Issued η)) := s.link.2

/-- A handle that is prepared now. -/
def issue (h : η) : Issued η := ⟨s.log.length, sql, h⟩

/-- After one call more. -/
def noted (call : Call (Issued η)) : PreparedStatements (Watched σ η) (Issued η) :=
  { s with link := (state, s.log ++ [call]) }

/-- After a prepare that was answered with a handle. -/
def prepared (h : η) : PreparedStatements (Watched σ η) (Issued η) :=
  { s.noted state (.prepare sql (.ok (s.issue sql h))) with
    slots := s.slots.insert sql (some (s.issue sql h)) }

/-- After a prepare that failed. -/
def refused (e : Error) : PreparedStatements (Watched σ η) (Issued η) :=
  { s.noted state (.prepare sql (.error e)) with slots := s.slots.erase sql }

/-- After a handle was taken out of its slot and closed. -/
def freed (x : Issued η) (answer : Except Error Unit) :
    PreparedStatements (Watched σ η) (Issued η) :=
  { s.noted state (.close x answer) with slots := s.slots.erase sql }

theorem held?_prepared (h : η) (t : String) :
    (s.prepared sql state h).held? t = if t = sql then some (s.issue sql h) else s.held? t := by
  simp only [held?, prepared, Store.get?_insert]
  split <;> rfl

theorem held?_freed (x : Issued η) (answer : Except Error Unit) (t : String) :
    (s.freed sql state x answer).held? t = if t = sql then none else s.held? t := by
  simp only [held?, freed, Store.get?_erase]
  split <;> rfl

end Noted

section Steps

variable (c : Connection σ η) (s : PreparedStatements (Watched σ η) (Issued η)) (sql : String)

/-- **What a prepare can do**: the held handle is the answer, or the connection is asked. -/
theorem prepare_cases :
    (∃ x, s.held? sql = some x ∧ s.prepare c.watched sql = (.ok x, s)) ∨
    (s.held? sql = none ∧ ∃ h state, c.prepare sql s.link.1 = (.ok h, state) ∧
      s.prepare c.watched sql = (.ok (s.issue sql h), s.prepared sql state h)) ∨
    (s.held? sql = none ∧ ∃ e state, c.prepare sql s.link.1 = (.error e, state) ∧
      s.prepare c.watched sql = (.error e, s.refused sql state e)) := by
  cases held : s.held? sql with
  | some x => exact .inl ⟨x, rfl, prepare_of_held held⟩
  | none =>
      rcases asked : c.prepare sql s.link.1 with ⟨_ | h, state⟩
      · refine .inr (.inr ⟨rfl, _, state, rfl, prepare_of_error held ?_⟩)
        simp only [Connection.watched, asked]
        rfl
      · refine .inr (.inl ⟨rfl, h, state, rfl, prepare_of_ok held ?_⟩)
        simp only [Connection.watched, asked]
        rfl

/-- What a prepare answers with is held after it. -/
theorem held?_of_prepare {c : Connection σ η} {s s' : PreparedStatements (Watched σ η) (Issued η)}
    {sql : String} {x : Issued η} (h : s.prepare c.watched sql = (.ok x, s')) :
    s'.held? sql = some x := by
  rcases s.prepare_cases c sql with ⟨y, held, e⟩ | ⟨-, y, state, -, e⟩ | ⟨-, err, state, -, e⟩ <;>
    rw [e] at h <;> cases h
  · exact held
  · rw [held?_prepared, if_pos rfl]

/-- **What an invalidation can do**: the held handle is closed, or there is none. -/
theorem invalidate_cases :
    (∃ x, s.held? sql = some x ∧ ∃ answer state, c.close x.handle s.link.1 = (answer, state) ∧
      s.invalidate c.watched sql = s.freed sql state x answer) ∨
    (s.held? sql = none ∧ s.invalidate c.watched sql = { s with slots := s.slots.erase sql }) := by
  cases held : s.held? sql with
  | some x => exact .inl ⟨x, rfl, _, _, rfl, invalidate_of_held held⟩
  | none => exact .inr ⟨rfl, invalidate_of_none held⟩

end Steps

/-! ### Watching changes nothing -/

section Unwatched

variable (c : Connection σ η) (s : PreparedStatements (Watched σ η) (Issued η)) (sql : String)

/-- The statements without what was noted. -/
def unwatched : PreparedStatements σ η := ⟨s.link.1, s.slots.map (Option.map Issued.handle)⟩

/-- A watched statement cache holds what the cache it watches holds. -/
theorem held?_unwatched : s.unwatched.held? sql = (s.held? sql).map Issued.handle := by
  simp only [held?, unwatched, Store.get?_map]
  rcases s.slots.get? sql with _ | _ | x <;> rfl

/-- Watching changes neither what is prepared nor what is answered. -/
theorem prepare_unwatched :
    s.unwatched.prepare c sql =
      ((s.prepare c.watched sql).1.map Issued.handle, (s.prepare c.watched sql).2.unwatched) := by
  have known := s.held?_unwatched sql
  rcases s.prepare_cases c sql with ⟨x, held, e⟩ | ⟨held, h, state, asked, e⟩ |
    ⟨held, err, state, asked, e⟩ <;> rw [held] at known <;> rw [e]
  · exact prepare_of_held known
  · rw [prepare_of_ok known asked]
    simp only [unwatched, prepared, noted, Store.map_insert]
    rfl
  · rw [prepare_of_error known asked]
    simp only [unwatched, refused, noted, Store.map_erase]
    rfl

theorem invalidate_unwatched :
    s.unwatched.invalidate c sql = (s.invalidate c.watched sql).unwatched := by
  have known := s.held?_unwatched sql
  rcases s.invalidate_cases c sql with ⟨x, held, answer, state, asked, e⟩ | ⟨held, e⟩ <;>
    rw [held] at known <;> rw [e]
  · have closed : c.close x.handle s.unwatched.link = (answer, state) := asked
    rw [invalidate_of_held known, closed]
    simp only [unwatched, freed, noted, Store.map_erase]
  · rw [invalidate_of_none known]
    simp only [unwatched, Store.map_erase]

/-- The record grows with each close, and no close depends on it. -/
theorem closeEach_unwatched : ∀ (es : List (String × Option (Issued η))) (link : Watched σ η),
    closeEach c (es.map fun e => (e.1, e.2.map Issued.handle)) link.1 =
      ((closeEach c.watched es link).1, (closeEach c.watched es link).2.1)
  | [], _ => rfl
  | (_, none) :: es, link => closeEach_unwatched es link
  | (_, some x) :: es, link => by
      have rest : closeEach c (es.map fun e => (e.1, e.2.map Issued.handle))
          (c.close x.handle link.1).2 = _ := closeEach_unwatched es (c.watched.close x link).2
      rw [closeEach_some, List.map_cons, Option.map_some, closeEach_some, rest]
      rfl

theorem closeAll_unwatched (order : Store.Order String) :
    s.unwatched.closeAll c order =
      ((s.closeAll c.watched order).1, (s.closeAll c.watched order).2.unwatched) := by
  simp only [closeAll, unwatched, Store.inOrder_map, closeEach_unwatched]
  rfl

/-- After a run. -/
theorem run_unwatched (m : Mode α) (x : Issued η) (args : List Value) :
    m.run c x.handle args s.unwatched.link =
      ((m.run c.watched x args s.link).1, (m.run c.watched x args s.link).2.1) := by
  rw [m.run_watched]
  rfl

theorem runOnce_unwatched (m : Mode α) (args : List Value) :
    s.unwatched.runOnce c (m.run c · args) sql =
      ((s.runOnce c.watched (m.run c.watched · args) sql).1,
        (s.runOnce c.watched (m.run c.watched · args) sql).2.unwatched) := by
  have asked := prepare_unwatched c s sql
  rcases e : s.prepare c.watched sql with ⟨_ | x, s'⟩ <;> rw [e] at asked
  · rw [runOnce_of_error _ asked, runOnce_of_error _ e]
  · rw [runOnce_of_ok _ asked (run_unwatched c s' m x args), runOnce_of_ok _ e rfl]
    rfl

/-- A second try is made watched or not: what is stale is for the connection to say. -/
theorem runPrepared_unwatched (m : Mode α) (args : List Value) :
    s.unwatched.runPrepared c (m.run c · args) sql =
      ((s.runPrepared c.watched (m.run c.watched · args) sql).1,
        (s.runPrepared c.watched (m.run c.watched · args) sql).2.unwatched) := by
  have asked := prepare_unwatched c s sql
  rcases e : s.prepare c.watched sql with ⟨_ | x, s'⟩ <;> rw [e] at asked
  · rw [runPrepared_of_error _ asked, runPrepared_of_error _ e]
  · rcases ran : m.run c.watched x args s'.link with ⟨answer, link⟩
    have ran' := run_unwatched c s' m x args
    rw [ran] at ran'
    by_cases stale : ∃ err, answer = .error err ∧ c.isStale link.1 err = true
    · obtain ⟨err, rfl, stale⟩ := stale
      rw [runPrepared_of_stale _ asked ran' stale, runPrepared_of_stale _ e ran stale,
        ← runOnce_unwatched, ← invalidate_unwatched]
      rfl
    · have last : ∀ err, answer = .error err → c.isStale link.1 err = false := by
        simpa using stale
      rw [runPrepared_of_ok _ asked ran' last, runPrepared_of_ok _ e ran last]
      rfl

end Unwatched

end PreparedStatements

/-! ### Sessions -/

namespace Session

variable {κ : Type} {T : κ → Type} (c : Connection σ η) (s : Session T (Watched σ η) (Issued η))

def unwatched : Session T σ η := ⟨s.caches, s.statements.unwatched⟩

/-- **A session does the same, watched or not.** -/
theorem run_unwatched (m : Mode α) (ctx : Context) (destination : Option Destination) (n : Node)
    (b : Bindings) :
    s.unwatched.run c (m.run c) ctx destination n b =
      ((s.run c.watched (m.run c.watched) ctx destination n b).1,
        (s.run c.watched (m.run c.watched) ctx destination n b).2.unwatched) := by
  have compiled : (s.unwatched.compileCall ctx destination n b).1 =
      (s.compileCall ctx destination n b).1 := by
    rw [compileCall_fst, compileCall_fst]
    rfl
  have kept : (s.unwatched.compileCall ctx destination n b).2 =
      (s.compileCall ctx destination n b).2.unwatched := by
    rw [compileCall_snd, compileCall_snd]
    rfl
  cases e : (s.compileCall ctx destination n b).1 with
  | error err =>
      rw [e] at compiled
      rw [run_of_error _ compiled, run_of_error _ e, kept]
  | ok call =>
      rw [e] at compiled
      have ran := PreparedStatements.runPrepared_unwatched c s.statements call.1.sql m call.2
      rw [run_of_ok _ compiled, run_of_ok _ e, kept]
      simp only [unwatched, ran]

end Session

end PreparedSql
