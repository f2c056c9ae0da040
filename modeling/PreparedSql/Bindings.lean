import PreparedSql.Statement
import PreparedSql.Store

/-!
# Bindings

The values of one call: some by position, counted from 1, and some by name. `Bindings.resolve`
gives a list of slots their values in order, or names the first slot that has none.
-/

namespace PreparedSql

structure Bindings where
  positional : List Value := []
  named      : Store String Value := .empty

namespace Bindings

/-- One more positional value, at the next position. -/
def arg (b : Bindings) (v : Value) : Bindings := { b with positional := b.positional ++ [v] }

/-- The value of a name, in place of any value it had. -/
def set (b : Bindings) (name : String) (v : Value) : Bindings :=
  { b with named := b.named.insert name v }

def ofLists (positional : List Value) (named : List (String × Value)) : Bindings :=
  ⟨positional, .ofList named⟩

/-- The value of a slot; position 0 has none. -/
def value? (b : Bindings) : Slot → Option Value
  | .named name => b.named.get? name
  | .positional n => if n = 0 then none else b.positional[n.toNat - 1]?

/-- The values of the slots in order. -/
def resolve (b : Bindings) : List Slot → Except Error (List Value)
  | [] => pure []
  | s :: rest =>
    match b.value? s with
    | none => throw (.missingArgument s.text)
    | some v => (v :: ·) <$> b.resolve rest

end Bindings

end PreparedSql
