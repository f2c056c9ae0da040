import PreparedSql.Connection
import PreparedSql.Pool.Configuration
import PreparedSql.Pool.Url

/-!
# Servers

How a pool is opened, and what it answers once it is closed. A `Server` is a way to reach databases:
dialling a target may fail, and what it gives is the state of a connection.

* `PoolConfiguration.target` is all that is decided before anything is dialled.
* `Error.isStaleStatement` recognises the errors by which servers say that they no longer know a
  prepared statement.
-/

namespace PreparedSql

/-- What is dialled: the URL as the driver takes it, and the options of the pool. -/
structure PoolTarget where
  dialect : Dialect
  url     : String
  options : PoolOptions
deriving DecidableEq, Repr

/-- What a configuration dials, or why it dials nothing. -/
def PoolConfiguration.target (c : PoolConfiguration) : Except Error PoolTarget := do
  let c := c.normalized
  let dialect ← Dialect.ofUrl c.url
  let url := driverUrl dialect c.url
  match urlFault? url with
  | some fault => throw (.connection s!"error with configuration: {fault.message}")
  | none => pure ⟨dialect, url, c.options⟩

structure Server (σ η : Type) where
  dial       : PoolTarget → Except Error σ
  connection : Connection σ η

/-- A connection for a configuration, with the dialect of its database. -/
def Server.connect {σ η : Type} (server : Server σ η) (c : PoolConfiguration) :
    Except Error (Dialect × σ) := do
  let target ← c.target
  let link ← server.dial target
  pure (target.dialect, link)

/-! ### Errors of servers -/

/-- The text of an error that a run ended with. -/
def Error.executionText? : Error → Option String
  | .execution message => some message
  | .conversion cause => some cause.message
  | _ => none

/-- Whether an error says that a statement is no longer prepared, or that its plan no longer fits.
The letter case of the text does not matter. -/
def Error.isStaleStatement (e : Error) : Bool :=
  match e.executionText? with
  | none => false
  | some message =>
    let mentions (part : String) : Bool := occursIn part.toList (lowerCase message).toList
    (mentions "prepared statement" && mentions "does not exist") ||
      mentions "unknown prepared statement handler" ||
      mentions "cached plan must not change result type"

/-! ### Closed pools -/

/-- How many connections a pool has, and how many of them are idle. -/
structure PoolStats where
  total : Nat := 0
  idle  : Nat := 0
deriving DecidableEq, Repr

def PoolStats.inUse (s : PoolStats) : Nat := s.total - s.idle

/-- A pool without connections; once closed it never has any again. -/
structure IdlePool where
  dialect : Dialect
  closed  : Bool := false

namespace IdlePool

def close (p : IdlePool) : IdlePool := { p with closed := true }

def stats (_p : IdlePool) : PoolStats := {}

/-- What a caller is told that wants a connection. -/
def refusal (p : IdlePool) : String :=
  if p.closed then "attempted to acquire a connection on a closed pool"
  else "no connection became free in time"

/-- Whether the database answers. -/
def health (p : IdlePool) : Except Error Unit := throw (.connection p.refusal)

/-- A pool without connections refuses every call but to close a statement. -/
def connection : Connection IdlePool Unit where
  prepare sql p := (throw (.prepare sql p.refusal), p)
  abandon _ p := p
  execute _ _ p := (throw (.execution p.refusal), p)
  query _ _ p := (throw (.execution p.refusal), p)
  close _ p := (pure (), p)
  isStale _ e := e.isStaleStatement

end IdlePool

/-- Through this server no database is reached. -/
def Server.unreachable : Server IdlePool Unit where
  dial target :=
    let name := target.dialect.name
    throw (.connection s!"no {name} server can be reached")
  connection := IdlePool.connection

end PreparedSql
