import PreparedSql.Fingerprint
import PreparedSql.Rendering

/-!
# Compiled queries

A compiled query is SQL text with its bind slots, and the destination that its rows are meant for,
if any. The cache keeps compiled queries by key and counts hits and misses, without a bound on
either; it never forgets an entry until it is cleared, and clearing leaves the counters alone. Each
write is numbered, so that two entries with equal content can be told apart.

* `QueryCache.compile` answers from the cache where the key is there, and else writes the node in
  its context. A node that cannot be written is counted as a miss and leaves nothing behind.
-/

namespace PreparedSql

structure Query where
  sql         : String
  slots       : List Slot
  destination : Option Destination := none
deriving DecidableEq, Repr

/-- The name of the prepared statement for the query's SQL. -/
def Query.statementKey (q : Query) : String := PreparedSql.statementKey q.sql

/-- A query in the cache, with the number of the write that put it there. -/
structure StoredQuery where
  serial : Nat
  query  : Query
deriving DecidableEq, Repr

/-- How many entries a cache has, and how its lookups ended. -/
structure CacheStats where
  entries : Nat
  hits    : Nat
  misses  : Nat
deriving DecidableEq, Repr

/-- Hits per hundred lookups; none without a lookup. -/
def CacheStats.hitRate (s : CacheStats) : Double :=
  if s.hits + s.misses = 0 then .zero
  else ((Double.ofInt s.hits).div (.ofInt (s.hits + s.misses : Nat))).mul (.ofInt 100)

structure QueryCache where
  entries : Store UInt64 StoredQuery := .empty
  hits    : Nat := 0
  misses  : Nat := 0
  writes  : Nat := 0

namespace QueryCache

/-- The entry of a key, not counted. -/
def get? (c : QueryCache) (key : UInt64) : Option StoredQuery := c.entries.get? key

/-- The entry of a key, counted as a hit or a miss. -/
def lookup (c : QueryCache) (key : UInt64) : Option StoredQuery × QueryCache :=
  match c.get? key with
  | some found => (some found, { c with hits := c.hits + 1 })
  | none => (none, { c with misses := c.misses + 1 })

/-- The query written for a key, in place of any query it had. -/
def set (c : QueryCache) (key : UInt64) (q : Query) : StoredQuery × QueryCache :=
  let stored : StoredQuery := ⟨c.writes, q⟩
  (stored, { c with entries := c.entries.insert key stored, writes := c.writes + 1 })

def clear (c : QueryCache) : QueryCache := { c with entries := .empty }

def size (c : QueryCache) : Nat := c.entries.size

def isEmpty (c : QueryCache) : Bool := c.entries.isEmpty

def stats (c : QueryCache) : CacheStats := ⟨c.size, c.hits, c.misses⟩

/-- The query of a node in a context, from the cache or written now. -/
def compile (c : QueryCache) (ctx : Context) (destination : Option Destination) (n : Node) :
    Except Error StoredQuery × QueryCache :=
  let key := queryKey ctx.dialect destination n
  match c.lookup key with
  | (some found, c) => (pure found, c)
  | (none, c) =>
    match n.render ctx with
    | .error e => (throw e, c)
    | .ok r =>
      let (stored, c) := c.set key ⟨r.sql, r.slots, destination⟩
      (pure stored, c)

end QueryCache

end PreparedSql
