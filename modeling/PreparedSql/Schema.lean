import PreparedSql.Statement
import PreparedSql.Store

/-!
# Schemas

The known columns of some tables, by display name, and the context that a statement is written in:
a dialect and a schema. A table that the schema does not list is not checked.
-/

namespace PreparedSql

/-- Columns by the display name of their table. -/
structure Schema where
  tables : Store String (List String) := .empty

namespace Schema

/-- A schema of these tables; of two with one name the later one counts. -/
def ofList (tables : List (String × List String)) : Schema := ⟨.ofList tables⟩

/-- The known columns of a table, if it is listed. -/
def columns? (s : Schema) (t : Table) : Option (List String) := s.tables.get? t.text

end Schema

structure Context where
  dialect : Dialect := .postgres
  schema  : Schema := {}

/-- The first column, RETURNING columns last, that the table is known not to have. -/
def Insert.unknownColumn? (c : Context) (s : Insert) : Option RenderError :=
  match c.schema.columns? s.table with
  | none => none
  | some known =>
    ((s.columns ++ s.returning).find? (· ∉ known)).map (.unknownColumn s.table.text)

/-- Why the statement cannot be begun in the context: its shape, an unknown column, or a RETURNING
list where there is none. -/
def Insert.fault? (c : Context) (s : Insert) : Option RenderError :=
  match s.shapeFault? with
  | some fault => some fault
  | none =>
    match s.unknownColumn? c with
    | some fault => some fault
    | none =>
      if s.returning ≠ [] ∧ ¬ c.dialect.supportsReturning then some (.returningUnsupported c.dialect)
      else none

end PreparedSql
