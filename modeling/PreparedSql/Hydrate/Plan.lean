import PreparedSql.Fingerprint
import PreparedSql.Hydrate.Field
import PreparedSql.Store

/-!
# Hydration plans

A plan is a list of fields with an index from column names to places in the list. A result set is
hydrated by looking its columns up once and writing every row by position: an unknown column is
left out, a column without a value in the row is null, and the first field that refuses its value
ends the row with an error that names the column.
-/

namespace PreparedSql

/-- A row as it comes from the database. -/
structure Row where
  columns : List String
  values  : List Value

/-- The value of the first column with this name. -/
def Row.get? (r : Row) (column : String) : Option Value :=
  (r.columns.findIdx? (· = column)).bind fun i => r.values[i]?

/-- A record that rows can be hydrated into: what it is before anything is written, and its
fields. -/
class Record (α : Type) extends Inhabited α where
  destination : Destination
  fields      : List (Field α)

structure Plan (α : Type) where
  fields : List (Field α)

namespace Plan

variable {α : Type}

/-- The plan of all fields of a record. -/
def build (α : Type) [Record α] : Plan α := ⟨Record.fields⟩

/-- Places by column name; of two fields with one name the later one counts. -/
def index (p : Plan α) : Store String Nat :=
  .ofList (p.fields.zipIdx.map fun f => (f.1.column, f.2))

/-- The place of the field for each column. -/
def resolve (p : Plan α) (columns : List String) : List (Option Nat) :=
  let index := p.index
  columns.map index.get?

/-- The record with the values written at their places, from position `pos` on. -/
def write (p : Plan α) (values : List Value) : (pos : Nat) → List (Option Nat) → α → Except Error α
  | _, [], target => pure target
  | pos, place :: rest, target =>
    match place.bind fun i => p.fields[i]? with
    | none => p.write values (pos + 1) rest target
    | some field =>
      match field.write target (values[pos]?.getD .null) with
      | .ok target => p.write values (pos + 1) rest target
      | .error e => throw (.scan field.column (Error.conversion e).message)

/-- One row. -/
def scan [Inhabited α] (p : Plan α) (r : Row) : Except Error α :=
  p.write r.values 0 (p.resolve r.columns) default

/-- A result set; the columns are those of its first row. -/
def scanAll [Inhabited α] (p : Plan α) (rows : List Row) : Except Error (List α) :=
  match rows with
  | [] => pure []
  | first :: _ =>
    let places := p.resolve first.columns
    rows.mapM fun r => p.write r.values 0 places default

/-- A text in double quotes. -/
def quotedText (s : String) : String := "\"" ++ s ++ "\""

/-- The plan in words: the record's name and the paths of the fields. -/
def describe (p : Plan α) (destination : Destination) : String :=
  let field (f : Field α) : String :=
    "Field \x7b path: [" ++ String.intercalate ", " (f.path.map quotedText) ++ "] \x7d"
  "ScannerPlan \x7b type: " ++ quotedText destination.name ++ ", fields: [" ++
    String.intercalate ", " (p.fields.map field) ++ "] \x7d"

end Plan

end PreparedSql
