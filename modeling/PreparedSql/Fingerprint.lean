import PreparedSql.Hash.Sip
import PreparedSql.Statement

/-!
# Fingerprints

A fingerprint is the hash of a list of pieces, texts and counts, that say all of a node that
matters for its SQL: the kind of each part, its names, and for a literal the kind of value and its
canonical text. A slot contributes itself and never a value. Each kind of node has a tag in front,
so that nodes of different kinds have different pieces.
-/

namespace PreparedSql

/-- A piece of what is hashed. -/
inductive Piece where
  | text (s : String)
  | count (n : Nat)
deriving DecidableEq, Repr

/-- The last `width` bytes of a number, the least significant first. -/
def littleEndianBytes : (width : Nat) → Nat → List UInt8
  | 0, _ => []
  | width + 1, n => UInt8.ofNat n :: littleEndianBytes width (n / 256)

/-- A text is its UTF-8 bytes and the byte `0xFF`; a count is eight bytes. -/
def Piece.bytes : Piece → List UInt8
  | .text s => s.toUTF8.toList ++ [0xFF]
  | .count n => littleEndianBytes 8 n

/-- The bytes of the pieces one after the other. -/
def hashInput (pieces : List Piece) : List UInt8 := pieces.flatMap Piece.bytes

def hashPieces (pieces : List Piece) : UInt64 := sipHash (hashInput pieces)

namespace Value

/-- The kind of the value and its canonical text. -/
def pieces (v : Value) : List Piece := [.text v.kind.name, .text v.text]

end Value

namespace Node

def tablePieces (t : Table) : List Piece :=
  [.text "table:", .text (t.schema.getD ""), .text t.name]

def columnPieces (name : String) : List Piece := [.text "column:", .text name]

def literalPieces (v : Value) : List Piece := .text "value:" :: v.pieces

def slotPieces : Slot → List Piece
  | .named name => [.text "param:", .text name]
  | .positional n => [.text "param:", .count n.toNat]

def arrayPieces (vs : List Value) : List Piece :=
  .text "array:" :: .count vs.length :: vs.flatMap Value.pieces

def cellPieces : Cell → List Piece
  | .literal v => literalPieces v
  | .slot s => slotPieces s
  | .array vs => arrayPieces vs
  | .column name => columnPieces name

def rowPieces (row : List Cell) : List Piece := .count row.length :: row.flatMap cellPieces

def insertPieces (s : Insert) : List Piece :=
  .text "insert:" :: (tablePieces s.table ++
    .count s.columns.length :: (s.columns.flatMap columnPieces ++
    .count s.rows.length :: (s.rows.flatMap rowPieces ++
    .text "returning:" :: .count s.returning.length :: s.returning.flatMap columnPieces)))

def pieces : Node → List Piece
  | .table t => tablePieces t
  | .column name => columnPieces name
  | .literal v => literalPieces v
  | .slot s => slotPieces s
  | .array vs => arrayPieces vs
  | .insert s => insertPieces s

def fingerprint (n : Node) : UInt64 := hashPieces n.pieces

end Node

/-- The name of a type of records that rows are hydrated into. -/
structure Destination where
  name : String
deriving DecidableEq, Repr

/-- What the key of a compiled query is made of: the dialect, the destination if there is one, and
the node. -/
def keyPieces (d : Dialect) (destination : Option Destination) (n : Node) : List Piece :=
  .text "dialect:" :: .text d.name ::
    ((match destination with
      | some t => [.text "scanner:", .text t.name]
      | none => []) ++ n.pieces)

/-- The key of a compiled query. -/
def queryKey (d : Dialect) (destination : Option Destination) (n : Node) : UInt64 :=
  hashPieces (keyPieces d destination n)

/-- The 64-bit number in sixteen hexadecimal digits. -/
def fingerprintText (h : UInt64) : String := String.ofList (hexDigits 16 h.toNat)

/-- The name of a prepared statement: `s` and the hash of the SQL text with its length in bytes. -/
def statementKey (sql : String) : String :=
  let bytes := sql.toUTF8.toList
  String.ofList ('s' :: hexDigits 16 (sipHash (littleEndianBytes 8 bytes.length ++ bytes)).toNat)

end PreparedSql
