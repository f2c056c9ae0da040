/-!
# Dialects

The three database families and the choices that do not depend on a value: how a name is quoted,
how a bind slot is written, and which features are there.
-/

namespace PreparedSql

inductive Dialect where
  | postgres
  | mysql
  | tidb
deriving DecidableEq, Repr

namespace Dialect

def name : Dialect → String
  | .postgres => "postgres"
  | .mysql => "mysql"
  | .tidb => "tidb"

/-- The character around identifiers. -/
def quote : Dialect → Char
  | .postgres => '"'
  | .mysql | .tidb => '\x60'

/-- The name between quotes. Quotes inside it stay as they are. -/
def quoteIdentifier (d : Dialect) (name : String) : String :=
  String.ofList (d.quote :: (name.toList ++ [d.quote]))

/-- The bind slot at a position, counted from 1. -/
def placeholder : Dialect → Nat → String
  | .postgres, position => String.ofList ('$' :: Nat.toDigits 10 position)
  | .mysql, _ | .tidb, _ => "?"

/-- Whether vectors are allowed. -/
def supportsVector : Dialect → Bool
  | .postgres | .tidb => true
  | .mysql => false

/-- Whether an INSERT may have a RETURNING list. -/
def supportsReturning : Dialect → Bool
  | .postgres => true
  | .mysql | .tidb => false

/-- The dialect with this name or one of its other names, in lower case. -/
def ofLowerName? : String → Option Dialect
  | "postgres" | "postgresql" | "pg" => some .postgres
  | "mysql" => some .mysql
  | "tidb" => some .tidb
  | _ => none

end Dialect

end PreparedSql
