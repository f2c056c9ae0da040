import PreparedSql.Bindings
import PreparedSql.CommandLine.Cell

/-!
# Bindings as text

A binding is a key, an equals sign and a literal. A key that is a number is a position, counted
from 1; any other key is a name. Positions may come in any order, but each has one value and none
is left out.
-/

namespace PreparedSql

inductive BindingError where
  | noEqualsSign (text : String)
  | positionZero
  | positionMissing (n : Nat)
deriving DecidableEq, Repr

def BindingError.message : BindingError → String
  | .noEqualsSign text => s!"binding must be key=value: {text}"
  | .positionZero => "positional bindings start at 1"
  | .positionMissing n => s!"missing positional binding ${n}"

/-- The slot that a binding is for, and its value. -/
def readBinding (text : String) : Except BindingError (Slot × Value) :=
  match cutAt? ['='] text.toList with
  | none => throw (.noEqualsSign text)
  | some (key, value) =>
    let v := Value.ofText (String.ofList value)
    match readUInt64? key with
    | some n => if n = 0 then throw .positionZero else pure (.positional n, v)
    | none => pure (.named (String.ofList key), v)

/-- The values in order, if their positions count up from `next`. -/
def inSequence : (next : Nat) → List (UInt64 × Value) → Except BindingError (List Value)
  | _, [] => pure []
  | next, (n, v) :: rest =>
    if n.toNat = next then (v :: ·) <$> inSequence (next + 1) rest
    else throw (.positionMissing next)

/-- The bindings with a position, in their order. -/
def positionalOnes (bs : List (Slot × Value)) : List (UInt64 × Value) :=
  bs.filterMap fun
    | (.positional n, v) => some (n, v)
    | (.named _, _) => none

/-- The bindings with a name, in their order. -/
def namedOnes (bs : List (Slot × Value)) : List (String × Value) :=
  bs.filterMap fun
    | (.named name, v) => some (name, v)
    | (.positional _, _) => none

/-- The bindings that the texts write. -/
def Bindings.ofTexts (texts : List String) : Except BindingError Bindings := do
  let bs ← texts.mapM readBinding
  let positional ← inSequence 1 ((positionalOnes bs).mergeSort fun a b => a.1 ≤ b.1)
  pure (.ofLists positional (namedOnes bs))

end PreparedSql
