import PreparedSql.Dialect.Literal
import PreparedSql.Schema

/-!
# Drafts

What a node is written as, before the bind slots are numbered: a list of texts and slots, ended by
an error where the node cannot be written further. A draft depends on the context and the node
only, so what is written for a node never depends on what was written before it, but for the
numbers of its slots.
-/

namespace PreparedSql

/-- A piece of SQL text, or a bind slot. -/
inductive Token where
  | text (s : String)
  | slot (s : Slot)
deriving DecidableEq, Repr

structure Draft where
  tokens : List Token
  fault  : Option RenderError := none
deriving DecidableEq, Repr

namespace Draft

def nothing : Draft := ⟨[], none⟩

def text (s : String) : Draft := ⟨[.text s], none⟩

def slot (s : Slot) : Draft := ⟨[.slot s], none⟩

/-- Nothing is written, and nothing after it. -/
def fail (fault : RenderError) : Draft := ⟨[], some fault⟩

/-- One after the other; after an error nothing more is written. -/
def append (a b : Draft) : Draft :=
  match a.fault with
  | some _ => a
  | none => ⟨a.tokens ++ b.tokens, b.fault⟩

instance : Append Draft := ⟨append⟩

/-- One after the other with a text between them. -/
def separated (separator : String) : List Draft → Draft
  | [] => nothing
  | [d] => d
  | d :: rest => d ++ (text separator ++ separated separator rest)

/-- In parentheses, with commas. -/
def list (items : List Draft) : Draft := text "(" ++ (separated ", " items ++ text ")")

/-! ### The drafts of nodes -/

/-- The name, after the name of its schema if it has one. -/
def ofTable (d : Dialect) (t : Table) : Draft :=
  match t.schema with
  | some schema =>
    text (d.quoteIdentifier schema) ++ (text "." ++ text (d.quoteIdentifier t.name))
  | none => text (d.quoteIdentifier t.name)

def ofColumn (d : Dialect) (name : String) : Draft := text (d.quoteIdentifier name)

def isVector : Value → Bool
  | .vector _ => true
  | _ => false

/-- A literal; a vector only where the dialect has vectors. -/
def ofValue (d : Dialect) (v : Value) : Draft :=
  if isVector v ∧ ¬ d.supportsVector then fail (.vectorUnsupported d) else text (d.literal v)

/-- Literals in parentheses, at least one. -/
def ofArray (d : Dialect) (vs : List Value) : Draft :=
  if vs.isEmpty then fail .emptyList else list (vs.map (ofValue d))

def ofCell (d : Dialect) : Cell → Draft
  | .literal v => ofValue d v
  | .slot s => slot s
  | .array vs => ofArray d vs
  | .column name => ofColumn d name

/-- The RETURNING list, if there is one. -/
def ofReturning (d : Dialect) (columns : List String) : Draft :=
  if columns.isEmpty then nothing
  else text " RETURNING " ++ separated ", " (columns.map (ofColumn d))

/-- The statement from its first word to its last, its rows in order. -/
def insertBody (d : Dialect) (s : Insert) : Draft :=
  text "INSERT INTO " ++ (ofTable d s.table ++ (text " " ++ (list (s.columns.map (ofColumn d)) ++
    (text " VALUES " ++ (separated ", " (s.rows.map fun row => list (row.map (ofCell d))) ++
      ofReturning d s.returning)))))

def ofInsert (c : Context) (s : Insert) : Draft :=
  match s.fault? c with
  | some fault => fail fault
  | none => insertBody c.dialect s

def ofNode (c : Context) : Node → Draft
  | .table t => ofTable c.dialect t
  | .column name => ofColumn c.dialect name
  | .literal v => ofValue c.dialect v
  | .slot s => slot s
  | .array vs => ofArray c.dialect vs
  | .insert s => ofInsert c s

end Draft

end PreparedSql
