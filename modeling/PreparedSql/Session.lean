import PreparedSql.Bindings
import PreparedSql.Hydrate.PlanCache
import PreparedSql.PreparedStatements
import PreparedSql.QueryCache

/-!
# Sessions

A session runs nodes on one connection: the query is compiled, its slots get their values, the
statement is prepared and run, and rows are hydrated. Compiled queries and plans are `Caches` that
sessions may share; prepared statements belong to one connection.
-/

namespace PreparedSql

/-- What sessions may share: compiled queries, and plans for the record types of a family. -/
structure Caches {κ : Type} (T : κ → Type) where
  queries : QueryCache := {}
  plans   : PlanCache T := {}

structure Session {κ : Type} (T : κ → Type) (σ η : Type) where
  caches     : Caches T := {}
  statements : PreparedStatements σ η

namespace Session

variable {κ : Type} {T : κ → Type} {σ η : Type} (c : Connection σ η)

/-- The query of a node with the values for its slots. -/
def compileCall (ctx : Context) (destination : Option Destination) (n : Node) (b : Bindings)
    (s : Session T σ η) : Except Error (Query × List Value) × Session T σ η :=
  let (compiled, queries) := s.caches.queries.compile ctx destination n
  let s := { s with caches := { s.caches with queries } }
  match compiled with
  | .error e => (throw e, s)
  | .ok stored => ((stored.query, ·) <$> b.resolve stored.query.slots, s)

/-- The node compiled, its slots given values, and the statement run. -/
def run {α : Type} (call : η → List Value → σ → Except Error α × σ) (ctx : Context)
    (destination : Option Destination) (n : Node) (b : Bindings) (s : Session T σ η) :
    Except Error α × Session T σ η :=
  match s.compileCall ctx destination n b with
  | (.error e, s) => (throw e, s)
  | (.ok (q, args), s) =>
    let (answer, statements) := s.statements.runPrepared c (call · args) q.sql
    (answer, { s with statements })

/-- Runs a node and answers the number of rows affected. -/
def execute (ctx : Context) (n : Node) (b : Bindings) (s : Session T σ η) :
    Except Error Nat × Session T σ η := s.run c c.execute ctx none n b

/-- Runs a node and answers its rows as they are. -/
def fetchRows (ctx : Context) (n : Node) (b : Bindings) (s : Session T σ η) :
    Except Error (List Row) × Session T σ η := s.run c c.query ctx none n b

/-- Runs a node and hydrates its rows. -/
def fetchAll [DecidableEq κ] (k : κ) [Record (T k)] (ctx : Context) (n : Node) (b : Bindings)
    (s : Session T σ η) : Except Error (List (T k)) × Session T σ η :=
  match s.run c c.query ctx (some (Record.destination (T k))) n b with
  | (.error e, s) => (throw e, s)
  | (.ok rows, s) =>
    let (plan, plans) := s.caches.plans.planFor k
    (plan.scanAll rows, { s with caches := { s.caches with plans } })

/-- Closes every statement prepared on the connection, in some order. -/
def close (s : Session T σ η) (order : Store.Order String := .asWritten) :
    Except Error Unit × Session T σ η :=
  let (answer, statements) := s.statements.closeAll c order
  (answer, { s with statements })

/-! ### What the operations do -/

section

variable {c} (ctx : Context) (destination : Option Destination) (n : Node) (b : Bindings)
  {s : Session T σ η}

/-- A call is compiled first; its bindings matter only where that succeeds. -/
theorem compileCall_fst :
    (s.compileCall ctx destination n b).1 =
      (s.caches.queries.compile ctx destination n).1.bind fun stored =>
        (b.resolve stored.query.slots).map fun args => (stored.query, args) := by
  unfold compileCall
  rcases s.caches.queries.compile ctx destination n with ⟨_ | stored, queries⟩ <;> rfl

/-- Compiling leaves its mark on the queries only. -/
theorem compileCall_snd :
    (s.compileCall ctx destination n b).2 =
      { s with caches :=
        { s.caches with queries := (s.caches.queries.compile ctx destination n).2 } } := by
  unfold compileCall
  rcases s.caches.queries.compile ctx destination n with ⟨_ | stored, queries⟩ <;> rfl

variable {ctx destination n b} {α : Type} (call : η → List Value → σ → Except Error α × σ)

/-- A call that has no SQL or no values does not reach the connection. -/
theorem run_of_error {e : Error} (h : (s.compileCall ctx destination n b).1 = .error e) :
    s.run c call ctx destination n b = (.error e, (s.compileCall ctx destination n b).2) := by
  unfold run
  rcases e' : s.compileCall ctx destination n b with ⟨answer, s'⟩
  rw [e'] at h
  subst h
  rfl

theorem run_of_ok {q : Query} {args : List Value}
    (h : (s.compileCall ctx destination n b).1 = .ok (q, args)) :
    s.run c call ctx destination n b =
      ((s.statements.runPrepared c (call · args) q.sql).1,
        { (s.compileCall ctx destination n b).2 with
          statements := (s.statements.runPrepared c (call · args) q.sql).2 }) := by
  have kept : (s.compileCall ctx destination n b).2.statements = s.statements := by
    rw [compileCall_snd]
  unfold run
  rw [← kept]
  rcases e' : s.compileCall ctx destination n b with ⟨answer, s'⟩
  rw [e'] at h
  subst h
  rfl

section

variable [DecidableEq κ] {k : κ} [Record (T k)]

/-- Without rows no plan is asked for. -/
theorem fetchAll_of_error {e : Error}
    (h : (s.run c c.query ctx (some (Record.destination (T k))) n b).1 = .error e) :
    s.fetchAll c k ctx n b =
      (.error e, (s.run c c.query ctx (some (Record.destination (T k))) n b).2) := by
  unfold fetchAll
  rcases e' : s.run c c.query ctx (some (Record.destination (T k))) n b with ⟨answer, s'⟩
  rw [e'] at h
  subst h
  rfl

/-- What hydrates the rows leaves its mark on the plans only. -/
theorem fetchAll_of_ok {rows : List Row} {s' : Session T σ η}
    (h : s.run c c.query ctx (some (Record.destination (T k))) n b = (.ok rows, s')) :
    s.fetchAll c k ctx n b =
      ((s'.caches.plans.planFor k).1.scanAll rows,
        { s' with caches := { s'.caches with plans := (s'.caches.plans.planFor k).2 } }) := by
  simp only [fetchAll, h]

end

end

end Session

end PreparedSql
