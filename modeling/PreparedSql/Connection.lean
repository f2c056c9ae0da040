import PreparedSql.Hydrate.Plan

/-!
# Connections

The database side, as the library sees it: a state `σ`, handles `η` for prepared statements, and
calls that may answer anything and change the state.
-/

namespace PreparedSql

structure Connection (σ η : Type) where
  prepare : String → σ → Except Error η × σ
  /-- What reaches the connection of a prepare whose caller went away before the answer. -/
  abandon : String → σ → σ
  /-- Runs a statement and answers the number of rows affected. -/
  execute : η → List Value → σ → Except Error Nat × σ
  /-- Runs a statement and answers its rows. -/
  query   : η → List Value → σ → Except Error (List Row) × σ
  close   : η → σ → Except Error Unit × σ
  /-- Whether an error means that the server no longer knows the statement. -/
  isStale : σ → Error → Bool

end PreparedSql
