import PreparedSql.Error
import PreparedSql.Text.Basic

/-!
# Statements

An INSERT statement and its parts. Columns are in order: cell `i` of every row goes to column `i`.
`Node` is anything that can be written by itself: a whole statement or one of its parts.
-/

namespace PreparedSql

/-- A table, perhaps in a schema. -/
structure Table where
  schema : Option String
  name   : String
deriving DecidableEq, Repr

namespace Table

/-- The table that a text names: what stands before the first point is the schema. -/
def ofString (s : String) : Table :=
  match cutAt? ['.'] s.toList with
  | some (schema, name) => ⟨some (String.ofList schema), String.ofList name⟩
  | none => ⟨none, s⟩

/-- The display name. -/
def text (t : Table) : String :=
  match t.schema with
  | some schema => schema ++ "." ++ t.name
  | none => t.name

end Table

/-- A place for a value that each call supplies. -/
inductive Slot where
  /-- The value of this name. -/
  | named (name : String)
  /-- The value at this place of the call's positional values, counted from 1. -/
  | positional (n : UInt64)
deriving DecidableEq, Repr

/-- A colon and the name, or a dollar sign and the position. -/
def Slot.text : Slot → String
  | .named name => String.ofList (':' :: name.toList)
  | .positional n => String.ofList ('$' :: Nat.toDigits 10 n.toNat)

/-- A cell of a row. -/
inductive Cell where
  | literal (v : Value)
  | slot (s : Slot)
  | array (vs : List Value)
  | column (name : String)

structure Insert where
  table     : Table
  columns   : List String
  rows      : List (List Cell)
  returning : List String := []

/-- A statement, or a part of one that can be written by itself. -/
inductive Node where
  | table (t : Table)
  | column (name : String)
  | literal (v : Value)
  | slot (s : Slot)
  | array (vs : List Value)
  | insert (s : Insert)

inductive NodeKind where
  | table
  | column
  | literal
  | slot
  | array
  | insert
deriving DecidableEq, Repr

def Node.kind : Node → NodeKind
  | .table _ => .table
  | .column _ => .column
  | .literal _ => .literal
  | .slot _ => .slot
  | .array _ => .array
  | .insert _ => .insert

/-- A cell by itself. -/
def Cell.node : Cell → Node
  | .literal v => .literal v
  | .slot s => .slot s
  | .array vs => .array vs
  | .column name => .column name

/-! ### Shape -/

/-- The first name that stands earlier in the list already. -/
def firstRepeated? (seen : List String) : List String → Option String
  | [] => none
  | x :: rest => if x ∈ seen then some x else firstRepeated? (x :: seen) rest

namespace Insert

/-- The first row, counted from `index`, that is not `width` cells wide. -/
def wrongWidth? (width : Nat) : (index : Nat) → List (List Cell) → Option RenderError
  | _, [] => none
  | index, row :: rest =>
    if row.length = width then wrongWidth? width (index + 1) rest
    else some (.rowWidth index row.length width)

/-- Why the statement has no proper shape, if it has none: it needs columns, each once, and rows,
each as wide as the list of columns. -/
def shapeFault? (s : Insert) : Option RenderError :=
  if s.columns.isEmpty then some (.noColumns s.table.text)
  else match firstRepeated? [] s.columns with
    | some column => some (.duplicateColumn column)
    | none =>
      if s.rows.isEmpty then some (.noRows s.table.text)
      else wrongWidth? s.columns.length 0 s.rows

/-- Fails where the statement has no proper shape. -/
def validate (s : Insert) : Except Error Unit :=
  match s.shapeFault? with
  | some fault => throw (.render fault)
  | none => pure ()

end Insert

end PreparedSql
