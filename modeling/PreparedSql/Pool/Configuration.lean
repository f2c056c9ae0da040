import PreparedSql.Error
import PreparedSql.Number.Layout
import PreparedSql.Toml.Reading

/-!
# Pool configurations

The size of a connection pool and its time limits. Zero stands for a value that is not set:
`PoolConfiguration.normalized` puts the default in its place and keeps the idle connections within
the open ones. Time limits are kept in whole seconds.

* `PoolConfiguration.ofToml` reads a configuration file, members that are not there being defaults.
* `PoolConfiguration.toToml` writes one, its members in a fixed order.
-/

namespace PreparedSql

/-- A span of time; a second is made of `10 ^ 9` nanoseconds. -/
structure Duration where
  seconds     : UInt64
  nanoseconds : Nat
  nanoseconds_lt : nanoseconds < 10 ^ 9
deriving DecidableEq

structure PoolConfiguration where
  url            : String := "postgres://localhost/postgres"
  maxOpen        : UInt32 := 10
  maxIdle        : UInt32 := 5
  maxLifetime    : UInt64 := 3600
  maxIdleTime    : UInt64 := 1800
  connectTimeout : UInt64 := 10
deriving DecidableEq, Repr

/-- What a pool is opened with: connections are let go when they have been idle long enough, so
none is kept open for its own sake. -/
structure PoolOptions where
  maxConnections : UInt32
  minConnections : UInt32
  maxLifetime    : UInt64
  idleTimeout    : UInt64
  acquireTimeout : UInt64
deriving DecidableEq, Repr

namespace PoolConfiguration

/-- The connections that may be open. -/
def withMaxOpen (c : PoolConfiguration) (n : UInt32) : PoolConfiguration := { c with maxOpen := n }

/-- The connections that may be idle. -/
def withMaxIdle (c : PoolConfiguration) (n : UInt32) : PoolConfiguration := { c with maxIdle := n }

/-- How long a connection is used. -/
def withMaxLifetime (c : PoolConfiguration) (d : Duration) : PoolConfiguration :=
  { c with maxLifetime := d.seconds }

/-- How long a connection may be idle. -/
def withMaxIdleTime (c : PoolConfiguration) (d : Duration) : PoolConfiguration :=
  { c with maxIdleTime := d.seconds }

/-- How long a caller waits for a connection. -/
def withConnectTimeout (c : PoolConfiguration) (d : Duration) : PoolConfiguration :=
  { c with connectTimeout := d.seconds }

/-- Defaults in place of zeros, and no more idle connections than open ones. -/
def normalized (c : PoolConfiguration) : PoolConfiguration :=
  let defaults : PoolConfiguration := {}
  let maxOpen := if c.maxOpen = 0 then defaults.maxOpen else c.maxOpen
  let maxIdle := if c.maxIdle = 0 then defaults.maxIdle else c.maxIdle
  { url            := c.url
    maxOpen        := maxOpen
    maxIdle        := min maxIdle maxOpen
    maxLifetime    := if c.maxLifetime = 0 then defaults.maxLifetime else c.maxLifetime
    maxIdleTime    := if c.maxIdleTime = 0 then defaults.maxIdleTime else c.maxIdleTime
    connectTimeout := if c.connectTimeout = 0 then defaults.connectTimeout else c.connectTimeout }

def options (c : PoolConfiguration) : PoolOptions where
  maxConnections := c.maxOpen
  minConnections := 0
  maxLifetime    := c.maxLifetime
  idleTimeout    := c.maxIdleTime
  acquireTimeout := c.connectTimeout

/-! ### Files -/

/-- A member that a file cannot have. -/
def badMember (name : String) : Error := .toml s!"{name} is out of its range or of another type"

/-- A text member, or the default where the file has none. -/
def textMember (ms : Toml.Members) (name default : String) : Except Error String :=
  match ms.get? name with
  | none => pure default
  | some (.string s) => pure s
  | some _ => throw (badMember name)

/-- A natural member below `limit`, or the default where the file has none. -/
def natMember (ms : Toml.Members) (name : String) (limit default : Nat) : Except Error Nat :=
  match ms.get? name with
  | none => pure default
  | some (.integer n) => if 0 ≤ n ∧ n < limit then pure n.toNat else throw (badMember name)
  | some _ => throw (badMember name)

/-- The configuration with these members; others do not matter. -/
def ofMembers (ms : Toml.Members) : Except Error PoolConfiguration := do
  let d : PoolConfiguration := {}
  let url ← textMember ms "url" d.url
  let maxOpen ← natMember ms "max_open" UInt32.size d.maxOpen.toNat
  let maxIdle ← natMember ms "max_idle" UInt32.size d.maxIdle.toNat
  let maxLifetime ← natMember ms "max_lifetime_secs" UInt64.size d.maxLifetime.toNat
  let maxIdleTime ← natMember ms "max_idle_time_secs" UInt64.size d.maxIdleTime.toNat
  let connectTimeout ← natMember ms "connect_timeout_secs" UInt64.size d.connectTimeout.toNat
  pure ⟨url, .ofNat maxOpen, .ofNat maxIdle, .ofNat maxLifetime, .ofNat maxIdleTime,
    .ofNat connectTimeout⟩

/-- The configuration that a text writes, normalized. -/
def ofToml (text : String) : Except Error PoolConfiguration :=
  match Toml.read? text with
  | none => throw (.toml "not a TOML document")
  | some ms => normalized <$> ofMembers ms

/-- The configuration of a file with these contents, if there is such a file. -/
def load (contents : Option ByteArray) : Except Error PoolConfiguration :=
  match contents with
  | none => throw (.io "no such file")
  | some bytes =>
    match String.fromUTF8? bytes with
    | none => throw (.io "not UTF-8 text")
    | some text => ofToml text

/-- The largest integer of a file. -/
def largestInteger : Nat := 2 ^ 63 - 1

/-- A line with one member. -/
def memberLine (name : String) (value : List Char) : String :=
  name ++ " = " ++ String.ofList value ++ "\n"

/-- A line with a natural member. -/
def natLine (name : String) (n : Nat) : Except Error String :=
  if n ≤ largestInteger then pure (memberLine name (decimalDigits n))
  else throw (.config (.integerTooLarge n))

/-- The configuration as the text of a file. -/
def toToml (c : PoolConfiguration) : Except Error String := do
  let lines ← [("max_open", c.maxOpen.toNat), ("max_idle", c.maxIdle.toNat),
    ("max_lifetime_secs", c.maxLifetime.toNat), ("max_idle_time_secs", c.maxIdleTime.toNat),
    ("connect_timeout_secs", c.connectTimeout.toNat)].mapM fun p => natLine p.1 p.2
  pure (memberLine "url" (Toml.quoted c.url) ++ String.join lines)

end PoolConfiguration

end PreparedSql
