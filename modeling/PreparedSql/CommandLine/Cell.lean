import PreparedSql.Number.Reading
import PreparedSql.Statement
import PreparedSql.Text.Basic
import PreparedSql.Text.Quoted

/-!
# Cells as text

A row is cells with commas between them; a comma inside single quotes belongs to its cell. A cell is
a named slot after a colon, a positional slot after a dollar sign, an array in brackets, or a
literal. A literal is read as the first of these that it is: null, a truth value, an integer of 64
bits, a floating-point number, text in single quotes, and else text as it stands.
-/

namespace PreparedSql

/-- The texts between the commas outside single quotes; there is always at least one. -/
def splitOutsideQuotes : (quoted : Bool) → List Char → List (List Char)
  | _, [] => [[]]
  | quoted, c :: cs =>
    if c = ',' ∧ ¬ quoted then [] :: splitOutsideQuotes false cs
    else
      match splitOutsideQuotes (if c = '\'' then !quoted else quoted) cs with
      | cell :: cells => (c :: cell) :: cells
      | [] => [[c]]

/-- The texts of a row's cells. -/
def splitRow (row : String) : List String :=
  (splitOutsideQuotes false row.toList).map String.ofList

/-- Text in single quotes without them, quotes written twice read as one; other text as it is. -/
def unquoted (cs : List Char) : List Char :=
  match betweenQuotes? cs with
  | some inner => undoubled '\'' inner
  | none => cs

/-- The literal that a text writes. -/
def Value.ofText (s : String) : Value :=
  if lowerCase s = "null" then .null
  else if s = "true" then .bool true
  else if s = "false" then .bool false
  else
    match (readInt? s.toList).bind (FixedInt.ofInt? .i64) with
    | some n => .int .i64 n
    | none =>
      match Double.read? s.toList with
      | some x => .f64 x
      | none => .string (String.ofList (unquoted s.toList))

/-- The values of an array between its brackets; nothing between two semicolons is no value. -/
def arrayValues (inner : List Char) : List Value :=
  ((splitAtEach ';' inner).filter (!·.isEmpty)).map fun cs => .ofText (String.ofList (trim cs))

/-- The position after a dollar sign. -/
def position? : List Char → Option UInt64
  | '$' :: ds => readUInt64? ds
  | _ => none

/-- The cell that a text writes. -/
def Cell.ofText (s : String) : Cell :=
  match s.toList with
  | ':' :: name => .slot (.named (String.ofList name))
  | cs =>
    match position? cs with
    | some n => .slot (.positional n)
    | none =>
      match betweenBrackets? cs with
      | some inner => .array (arrayValues inner)
      | none => .literal (.ofText s)

/-- The cells of a row, blanks around each left out. -/
def cellsOfText (row : String) : List Cell :=
  (splitRow row).map fun cell => .ofText (String.ofList (trim cell.toList))

end PreparedSql
