import PreparedSql.Store
import PreparedSql.Value

/-!
# Array pools

A free list of arrays for reuse, at most `maxIdle` of them. A released array is emptied before it
waits for reuse; beyond the limit it is dropped. A clone of a pool shares its free list, so it is
the same pool, whichever of the two an array is acquired from or released to.

`Lending` is a pool with the arrays lent out from it, by name. A pooled array goes back when its
guard is dropped, unless it was taken out before; a loose one, taken out or made outside the pool,
goes back only by a release.
-/

namespace PreparedSql

/-- An array without its contents. -/
def emptied (_array : List Value) : List Value := []

structure ArrayPool where
  maxIdle : Nat := 64
  free    : List (List Value) := []

namespace ArrayPool

/-- How many arrays wait for reuse. -/
def idle (p : ArrayPool) : Nat := p.free.length

/-- An array from the free list, or a new one where the list is empty. -/
def acquire (p : ArrayPool) : List Value × ArrayPool :=
  match p.free with
  | [] => ([], p)
  | array :: free => (array, { p with free })

/-- An array given back: its contents are dropped. -/
def release (p : ArrayPool) (array : List Value) : ArrayPool :=
  if p.idle < p.maxIdle then { p with free := emptied array :: p.free } else p

end ArrayPool

/-- The guard of a pooled array, which is in it until it is taken out. -/
structure Guard where
  array : Option (List Value)

namespace Guard

/-- The array, and the guard without it. -/
def take (g : Guard) : Option (List Value) × Guard := (g.array, ⟨none⟩)

/-- The pool after the guard is dropped: the array that is still in it goes back. -/
def drop (g : Guard) (pool : ArrayPool) : ArrayPool :=
  match g.array with
  | some array => pool.release array
  | none => pool

end Guard

/-- An array in use. -/
inductive HeldArray where
  | pooled (guard : Guard)
  | loose (values : List Value)

namespace HeldArray

def values : HeldArray → List Value
  | .pooled g => g.array.getD []
  | .loose vs => vs

def map (f : List Value → List Value) : HeldArray → HeldArray
  | .pooled g => .pooled ⟨g.array.map f⟩
  | .loose vs => .loose (f vs)

end HeldArray

/-- A pool, and the arrays in use by the names of their holders. -/
structure Lending where
  pool : ArrayPool
  held : Store String HeldArray := .empty

namespace Lending

/-- What a holder can do. -/
inductive Step where
  | acquire
  | create
  | push (v : Value)
  | clear
  | detach
  | drop
  | release

/-- What happens to an array that its holder no longer has: the guard of a pooled one is dropped. -/
def giveUp (pool : ArrayPool) : Option HeldArray → ArrayPool
  | some (.pooled g) => g.drop pool
  | some (.loose _) | none => pool

/-- The array of a holder, changed. -/
def update (l : Lending) (holder : String) (f : HeldArray → HeldArray) : Lending :=
  match l.held.get? holder with
  | some a => { l with held := l.held.insert holder (f a) }
  | none => l

/-- The array of a holder taken out of its guard, which is dropped then. A guard always has its
array while it is held. -/
def takeOut (l : Lending) (holder : String) : Lending :=
  match l.held.get? holder with
  | some (.pooled g) =>
    match g.take with
    | (some vs, g) => ⟨g.drop l.pool, l.held.insert holder (.loose vs)⟩
    | (none, _) => l
  | some (.loose _) | none => l

/-- The step of one holder. What it held before is given up after the new array is there; a step
on an array that is not there, or that cannot take the step, changes nothing. -/
def step (l : Lending) (holder : String) : Step → Lending
  | .acquire =>
    let (array, pool) := l.pool.acquire
    ⟨giveUp pool (l.held.get? holder), l.held.insert holder (.pooled ⟨some array⟩)⟩
  | .create => ⟨giveUp l.pool (l.held.get? holder), l.held.insert holder (.loose [])⟩
  | .push v => l.update holder fun a => a.map (· ++ [v])
  | .clear => l.update holder fun a => a.map emptied
  | .detach => l.takeOut holder
  | .drop => ⟨giveUp l.pool (l.held.get? holder), l.held.erase holder⟩
  | .release =>
    match l.held.get? holder with
    | some (.loose vs) => ⟨l.pool.release vs, l.held.erase holder⟩
    | some (.pooled _) | none => l

end Lending

end PreparedSql
