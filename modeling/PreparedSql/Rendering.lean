import PreparedSql.Draft

/-!
# Renderings

SQL text with its bind slots in the order of their placeholders. Writing a draft to a rendering
only appends: a text as it is, and a slot as the placeholder for the next position. What was
written before an error stays.
-/

namespace PreparedSql

structure Rendering where
  sql   : String
  slots : List Slot
deriving DecidableEq, Repr

namespace Rendering

def empty : Rendering := ⟨"", []⟩

def writeToken (d : Dialect) (r : Rendering) : Token → Rendering
  | .text s => { r with sql := r.sql ++ s }
  | .slot s => ⟨r.sql ++ d.placeholder (r.slots.length + 1), r.slots ++ [s]⟩

def writeTokens (d : Dialect) (r : Rendering) (tokens : List Token) : Rendering :=
  tokens.foldl (writeToken d) r

/-- The node written after what is there already, and whether it could be written to its end. -/
def accept (c : Context) (r : Rendering) (n : Node) : Except Error Unit × Rendering :=
  let draft := Draft.ofNode c n
  (match draft.fault with
    | some fault => throw (.render fault)
    | none => pure (),
   r.writeTokens c.dialect draft.tokens)

/-- What is written, taken out; nothing is left. -/
def finish (r : Rendering) : Rendering × Rendering := (r, empty)

end Rendering

/-- The node written by itself. -/
def Node.render (c : Context) (n : Node) : Except Error Rendering :=
  match Rendering.empty.accept c n with
  | (.ok (), r) => pure r
  | (.error e, _) => throw e

end PreparedSql
