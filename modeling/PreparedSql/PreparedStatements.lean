import PreparedSql.Connection
import PreparedSql.Store

/-!
# Prepared statements

The statements prepared on one connection, by SQL text. A text that is asked for has a slot, which
is empty while its statement is being prepared. The statement is prepared on first use and stays in
the slot until it is invalidated or all are closed; where a prepare fails, the slot is given up.

* `prepareTogether` is the first use by several callers at once. They wait for one prepare; where
  it fails, the next caller tries, but what it gets is no longer held for others.
* `prepareCancelled` leaves its slot behind, empty; the next caller uses it.
* `closeAll` closes every held statement, whatever fails, and collects the failures.
* `prepare_of_held`, `prepare_of_ok`, `prepare_of_error`, `invalidate_of_held`,
  `invalidate_of_none`, `runPrepared_of_ok`, `runPrepared_of_stale`: what the operations do.
-/

namespace PreparedSql

/-- The state of a connection, and the slots for the texts that were asked for. -/
structure PreparedStatements (σ η : Type) where
  link  : σ
  slots : Store String (Option η) := .empty

namespace PreparedStatements

variable {σ η : Type} (c : Connection σ η)

/-- The handle in the slot of a text. -/
def held? (s : PreparedStatements σ η) (sql : String) : Option η := (s.slots.get? sql).join

/-- How many statements are held; an empty slot does not count. -/
def size (s : PreparedStatements σ η) : Nat := s.slots.values.countP Option.isSome

def isEmpty (s : PreparedStatements σ η) : Bool := s.size == 0

/-- The slot that a text has, or an empty one. -/
def reserve (sql : String) (s : PreparedStatements σ η) : PreparedStatements σ η :=
  match s.slots.get? sql with
  | some _ => s
  | none => { s with slots := s.slots.insert sql none }

/-- The held statement, or one prepared now. -/
def prepare (sql : String) (s : PreparedStatements σ η) : Except Error η × PreparedStatements σ η :=
  let s := s.reserve sql
  match s.held? sql with
  | some h => (pure h, s)
  | none =>
    match c.prepare sql s.link with
    | (.ok h, link) => (pure h, ⟨link, s.slots.insert sql (some h)⟩)
    | (.error e, link) => (throw e, ⟨link, s.slots.erase sql⟩)

/-- The answers to callers that wait for a statement nobody holds: one after the other prepares
it, until one succeeds for itself and all behind it. -/
def waitersPrepare (sql : String) : (callers : Nat) → σ → List (Except Error η) × σ
  | 0, link => ([], link)
  | callers + 1, link =>
    match c.prepare sql link with
    | (.ok h, link) => (List.replicate (callers + 1) (pure h), link)
    | (.error e, link) =>
      let (answers, link) := waitersPrepare sql callers link
      (throw e :: answers, link)

/-- The answers to several callers that ask for one statement at once. -/
def prepareTogether (sql : String) :
    (callers : Nat) → PreparedStatements σ η → List (Except Error η) × PreparedStatements σ η
  | 0, s => ([], s)
  | callers + 1, s =>
    match s.prepare c sql with
    | (.ok h, s) => (List.replicate (callers + 1) (pure h), s)
    | (.error e, s) =>
      let (answers, link) := waitersPrepare c sql callers s.link
      (throw e :: answers, { s with link })

/-- A caller that goes away at its first wait: it gets a held statement, and else nothing. -/
def prepareCancelled (sql : String) (s : PreparedStatements σ η) :
    Option η × PreparedStatements σ η :=
  let s := s.reserve sql
  match s.held? sql with
  | some h => (some h, s)
  | none => (none, { s with link := c.abandon sql s.link })

/-- The text without its slot, and the statement closed if one was held; a failure to close is let
go. -/
def invalidate (sql : String) (s : PreparedStatements σ η) : PreparedStatements σ η :=
  let slots := s.slots.erase sql
  match s.held? sql with
  | some h => ⟨(c.close h s.link).2, slots⟩
  | none => { s with slots }

/-- The statement in each slot closed; the failures, by statement key. -/
def closeEach : List (String × Option η) → σ → List String × σ
  | [], link => ([], link)
  | (_, none) :: rest, link => closeEach rest link
  | (sql, some h) :: rest, link =>
    match c.close h link with
    | (.ok (), link) => closeEach rest link
    | (.error e, link) =>
      let (failures, link) := closeEach rest link
      ((statementKey sql ++ ": " ++ e.message) :: failures, link)

/-- Every held statement closed, in some order, and none held after. -/
def closeAll (s : PreparedStatements σ η) (order : Store.Order String := .asWritten) :
    Except Error Unit × PreparedStatements σ η :=
  let (failures, link) := closeEach c (s.slots.inOrder order) s.link
  (if failures.isEmpty then pure () else throw (.teardown failures), ⟨link, .empty⟩)

variable {α : Type} (run : η → σ → Except Error α × σ)

/-- The statement prepared and run once. -/
def runOnce (sql : String) (s : PreparedStatements σ η) : Except Error α × PreparedStatements σ η :=
  match s.prepare c sql with
  | (.error e, s) => (throw e, s)
  | (.ok h, s) =>
    let (answer, link) := run h s.link
    (answer, { s with link })

/-- The statement prepared and run. Where the run fails with an error that calls the statement
stale, the statement is closed, prepared again and run once more. -/
def runPrepared (sql : String) (s : PreparedStatements σ η) :
    Except Error α × PreparedStatements σ η :=
  match s.prepare c sql with
  | (.error e, s) => (throw e, s)
  | (.ok h, s) =>
    match run h s.link with
    | (.ok x, link) => (pure x, { s with link })
    | (.error e, link) =>
      if c.isStale link e then ({ s with link }.invalidate c sql).runOnce c run sql
      else (throw e, { s with link })

/-! ### What the operations do -/

section

variable {c} {s : PreparedStatements σ η} {sql : String}

theorem reserve_link : (s.reserve sql).link = s.link := by
  unfold reserve
  split <;> rfl

/-- An empty slot holds nothing, so making one is not seen by who asks for a handle. -/
theorem held?_reserve : (s.reserve sql).held? sql = s.held? sql := by
  unfold reserve
  split
  · rfl
  · next h => simp [held?, Store.get?_insert, h]

/-- What is written over a reserved slot is written over the slot before. -/
theorem insert_reserve (v : Option η) :
    (s.reserve sql).slots.insert sql v = s.slots.insert sql v := by
  unfold reserve
  split
  · rfl
  · exact Store.insert_insert_self ..

/-- A reserved slot that is given up leaves what was there without it. -/
theorem erase_reserve : (s.reserve sql).slots.erase sql = s.slots.erase sql := by
  unfold reserve
  split
  · rfl
  · exact Store.erase_insert_self ..

theorem reserve_of_held {x : η} (h : s.held? sql = some x) : s.reserve sql = s := by
  unfold reserve
  split
  · rfl
  · next e => simp [held?, e] at h

/-- A handle that is held is given again, and the connection is not asked. -/
theorem prepare_of_held {x : η} (h : s.held? sql = some x) : s.prepare c sql = (.ok x, s) := by
  simp only [prepare, reserve_of_held h, h]
  rfl

/-- What is prepared is held from then on. -/
theorem prepare_of_ok {x : η} {link : σ} (h : s.held? sql = none)
    (hp : c.prepare sql s.link = (.ok x, link)) :
    s.prepare c sql = (.ok x, ⟨link, s.slots.insert sql (some x)⟩) := by
  simp only [prepare, held?_reserve, h, reserve_link, hp, insert_reserve]
  rfl

/-- Where preparing fails nothing stays behind, not even an empty slot. -/
theorem prepare_of_error {e : Error} {link : σ} (h : s.held? sql = none)
    (hp : c.prepare sql s.link = (.error e, link)) :
    s.prepare c sql = (.error e, ⟨link, s.slots.erase sql⟩) := by
  simp only [prepare, held?_reserve, h, reserve_link, hp, erase_reserve]
  rfl

/-- A handle is let go before it is closed, however closing ends. -/
theorem invalidate_of_held {x : η} (h : s.held? sql = some x) :
    s.invalidate c sql = ⟨(c.close x s.link).2, s.slots.erase sql⟩ := by
  simp only [invalidate, h]

theorem invalidate_of_none (h : s.held? sql = none) :
    s.invalidate c sql = { s with slots := s.slots.erase sql } := by
  simp only [invalidate, h]

theorem runOnce_of_error {e : Error} {s' : PreparedStatements σ η}
    (h : s.prepare c sql = (.error e, s')) : s.runOnce c run sql = (.error e, s') := by
  rw [runOnce, h]
  rfl

theorem runOnce_of_ok {x : η} {s' : PreparedStatements σ η} {answer : Except Error α} {link : σ}
    (h : s.prepare c sql = (.ok x, s')) (hr : run x s'.link = (answer, link)) :
    s.runOnce c run sql = (answer, { s' with link }) := by
  simp only [runOnce, h, hr]

/-- Where nothing could be prepared nothing is run, and there is no second try. -/
theorem runPrepared_of_error {e : Error} {s' : PreparedStatements σ η}
    (h : s.prepare c sql = (.error e, s')) : s.runPrepared c run sql = (.error e, s') := by
  rw [runPrepared, h]
  rfl

/-- A run that does not fail as stale is the last one. -/
theorem runPrepared_of_ok {x : η} {s' : PreparedStatements σ η} {answer : Except Error α} {link : σ}
    (h : s.prepare c sql = (.ok x, s')) (hr : run x s'.link = (answer, link))
    (hs : ∀ e, answer = .error e → c.isStale link e = false) :
    s.runPrepared c run sql = (answer, { s' with link }) := by
  simp only [runPrepared, h, hr]
  cases answer with
  | ok v => rfl
  | error e =>
    simp only [hs e rfl, Bool.false_eq_true, if_false]
    rfl

/-- A stale handle is let go, and the statement is prepared and run once more. -/
theorem runPrepared_of_stale {x : η} {s' : PreparedStatements σ η} {e : Error} {link : σ}
    (h : s.prepare c sql = (.ok x, s')) (hr : run x s'.link = (.error e, link))
    (hs : c.isStale link e = true) :
    s.runPrepared c run sql = ({ s' with link }.invalidate c sql).runOnce c run sql := by
  simp only [runPrepared, h, hr, if_pos hs]

/-- What a close leaves among the failures. -/
def closeFailure? (sql : String) : Except Error Unit → Option String
  | .ok () => none
  | .error e => some (statementKey sql ++ ": " ++ e.message)

/-- Closing goes on after a failure, and reports all of them. -/
theorem closeEach_some (sql : String) (x : η) (rest : List (String × Option η)) (link : σ) :
    closeEach c ((sql, some x) :: rest) link =
      ((closeFailure? sql (c.close x link).1).toList ++ (closeEach c rest (c.close x link).2).1,
        (closeEach c rest (c.close x link).2).2) := by
  rw [closeEach]
  rcases c.close x link with ⟨_ | _, link⟩ <;> rfl

end

end PreparedStatements

end PreparedSql
