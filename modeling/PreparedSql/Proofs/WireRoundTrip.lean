import Mathlib.Data.List.Forall2
import PreparedSql.Wire

/-!
# What is bound comes back

Binding widens integers, decoding goes by the name of a column's type, and loading narrows.  The
three meet: a value that does not travel as text is decoded, from a column of the kind it was sent
in, to a value that loads as the type of the first one to just what that one holds
(`Value.Survives`).

* `FixedInt.ofInt?_val`: an integer fits its own type, so widening it and narrowing it again is no
  loss.
* `FixedInt.asSigned_val`: the bits of an integer without a sign are read as that integer where it
  is no greater than the greatest signed one, which is where it does not travel as text.
* `decodeRow_bindAll`: a row of bound values, one after the other.
-/

namespace PreparedSql

/-! ### Integers -/

theorem FixedInt.ofInt?_val {w : Width} (n : FixedInt w) : ofInt? w n.val = some n := by
  rw [ofInt?, dif_pos ⟨n.ge, n.le⟩]

/-- Below the largest signed integer the bits mean the same number. -/
theorem FixedInt.asSigned_val {n : FixedInt .u64} (h : n.val ≤ Width.i64.hi) :
    n.asSigned.val = n.val := by
  have ge := n.ge
  simp only [Width.lo, Width.hi] at ge h
  exact Int.bmod_eq_of_le (by omega) (by omega)

namespace Value

/-- An integer is loaded from the same integer in whatever type. -/
theorem loadInt_of_val_eq {w w' : Width} {n : FixedInt w} {m : FixedInt w'} (h : m.val = n.val) :
    loadInt w (.int w' m) = .ok n := by
  simp only [loadInt, int?, h, FixedInt.ofInt?_val]
  rfl

/-! ### One value -/

/-- Loading `w` as the type of `v` gives just what `v` holds. Null is loaded as an optional of any
type. -/
def LoadedFrom (v w : Value) : Prop :=
  match v with
  | .null        => ∀ (α : Type) [ColumnType α], ColumnType.load w = .ok (none : Option α)
  | .bool b      => ColumnType.load w = .ok b
  | .int _ n     => ColumnType.load w = .ok n
  | .f32 x       => ColumnType.load w = .ok x
  | .f64 x       => ColumnType.load w = .ok x
  | .string s    => ColumnType.load w = .ok s
  | .timestamp t => ColumnType.load w = .ok t
  | .bytes bs    => ColumnType.load w = .ok bs
  | .uuid u      => ColumnType.load w = .ok u
  | .json j      => ColumnType.load w = .ok j
  | .vector xs   => ColumnType.load w = .ok xs

/-- `w` is what comes back for `v`: it holds the same, and an integer is the same on the way. -/
structure Survives (v w : Value) : Prop where
  loaded  : v.LoadedFrom w
  sent    : v.bind.int? = v.int?
  decoded : w.int? = v.int?

end Value

/-- A column named for a kind is read as that kind. -/
theorem WireKind.ofColumnType_name (k : WireKind) : ofColumnType k.name = k := by
  cases k <;> rfl

/-- An integer is decoded by its value, whatever kind it was sent as. -/
theorem WireValue.decodeInt?_of_int? {w : Width} {v : WireValue} {n : FixedInt w}
    (h : v.int? = some n.val) : v.decodeInt? w = some (.int w n) := by
  rw [decodeInt?, h, Option.bind_some, FixedInt.ofInt?_val]
  rfl

namespace Value

/-- An integer that is sent as itself comes back. -/
theorem survives_int {w w' : Width} {n : FixedInt w} {m : FixedInt w'} (same : m.val = n.val)
    (sent : (Value.int w n).bind.int? = some m.val) : (Value.int w n).Survives (.int w' m) where
  loaded := loadInt_of_val_eq same
  sent := sent.trans (congrArg some same)
  decoded := congrArg some same

/-- **What is bound comes back**, unless it travels as text. -/
theorem decode?_bind {v : Value} (plain : v.wireText? = none) :
    ∃ w, v.bind.decode? (.ofColumnType v.bind.kind.name) = some w ∧ v.Survives w := by
  rw [WireKind.ofColumnType_name]
  cases v with
  | null => exact ⟨.null, rfl, fun _ _ => rfl, rfl, rfl⟩
  | bool b => exact ⟨.bool b, rfl, rfl, rfl, rfl⟩
  | f32 x => exact ⟨.f32 x, rfl, rfl, rfl, rfl⟩
  | f64 x => exact ⟨.f64 x, rfl, rfl, rfl, rfl⟩
  | string s => exact ⟨.string s, rfl, rfl, rfl, rfl⟩
  | bytes bs => exact ⟨.bytes bs, rfl, rfl, rfl, rfl⟩
  | timestamp t | uuid u | json j | vector xs => cases plain
  | int w n =>
      cases w with
      | i8 | u8 =>
          refine ⟨.int .i16 (n.widen .i16 (by decide) (by decide)), ?_, survives_int rfl rfl⟩
          exact WireValue.decodeInt?_of_int? rfl
      | i16 => exact ⟨.int .i16 n, WireValue.decodeInt?_of_int? rfl, survives_int rfl rfl⟩
      | i32 => exact ⟨.int .i32 n, WireValue.decodeInt?_of_int? rfl, survives_int rfl rfl⟩
      | i64 => exact ⟨.int .i64 n, WireValue.decodeInt?_of_int? rfl, survives_int rfl rfl⟩
      | u16 =>
          refine ⟨.int .i32 (n.widen .i32 (by decide) (by decide)), ?_, survives_int rfl rfl⟩
          exact WireValue.decodeInt?_of_int? rfl
      | u32 =>
          refine ⟨.int .i64 (n.widen .i64 (by decide) (by decide)), ?_, survives_int rfl rfl⟩
          exact WireValue.decodeInt?_of_int? rfl
      | u64 =>
          have small : n.val ≤ Width.i64.hi := by
            by_contra big
            simp [wireText?, big] at plain
          have sent : (Value.int .u64 n).bind = .bigint n.asSigned := by
            rw [bind, plain]
            rfl
          rw [sent]
          refine ⟨.int .i64 n.asSigned, WireValue.decodeInt?_of_int? rfl,
            survives_int (FixedInt.asSigned_val small) ?_⟩
          rw [sent]
          rfl

end Value

/-! ### A row of values -/

theorem decodeRow_cons_of_some {cell : WireCell} {rest : List WireCell} {v : Value}
    {vs : List Value} (h : cell.value.decode? (.ofColumnType cell.kind.name) = some v)
    (hs : decodeRow rest = .ok vs) : decodeRow (cell :: rest) = .ok (v :: vs) := by
  rw [decodeRow, h]
  show (v :: ·) <$> decodeRow rest = _
  rw [hs]
  rfl

/-- **A row of bound values comes back.** Values that do not travel as text, bound one after the
other, are decoded from a row whose columns have the kinds of what was bound to as many values in
the same order; each loads as the type of the one that was bound to just what that one holds, and
an integer is the same number all the way. -/
theorem decodeRow_bindAll (vs : List Value) (cells : List WireCell)
    (plain : ∀ v ∈ vs, v.wireText? = none)
    (bound : cells.map WireCell.value = Value.bindAll vs)
    (kinds : ∀ cell ∈ cells, cell.kind = cell.value.kind) :
    ∃ ws, decodeRow cells = .ok ws ∧ List.Forall₂ Value.Survives vs ws := by
  induction vs generalizing cells with
  | nil =>
      obtain rfl := List.map_eq_nil_iff.1 bound
      exact ⟨[], rfl, .nil⟩
  | cons v vs ih =>
      obtain ⟨cell, rest, rfl, value, bound⟩ := List.map_eq_cons_iff.1 bound
      obtain ⟨hv, plain⟩ := List.forall_mem_cons.1 plain
      obtain ⟨kind, kinds⟩ := List.forall_mem_cons.1 kinds
      obtain ⟨ws, decoded, survive⟩ := ih rest plain bound kinds
      obtain ⟨w, hw, survives⟩ := Value.decode?_bind hv
      refine ⟨w :: ws, decodeRow_cons_of_some ?_ decoded, .cons survives survive⟩
      rw [kind, value]
      exact hw

/-- A row of bound values, each column of the kind of what was bound. -/
def boundRow (vs : List Value) : List WireCell := vs.map fun v => ⟨"c", v.bind.kind, v.bind⟩

/-- Each kind that does not travel as text, integers at the ends of their types. -/
def plainRow : List Value :=
  [.null, .bool true, .int .i8 ⟨-2 ^ 7, by decide, by decide⟩,
   .int .i16 ⟨2 ^ 15 - 1, by decide, by decide⟩, .int .i32 ⟨-2 ^ 31, by decide, by decide⟩,
   .int .i64 ⟨-2 ^ 63, by decide, by decide⟩, .int .u8 ⟨2 ^ 8 - 1, by decide, by decide⟩,
   .int .u16 ⟨2 ^ 16 - 1, by decide, by decide⟩, .int .u32 ⟨2 ^ 32 - 1, by decide, by decide⟩,
   .int .u64 ⟨2 ^ 63 - 1, by decide, by decide⟩, .f32 ⟨0x7F7FFFFF⟩, .f64 ⟨1⟩, .string "it's",
   .bytes [0, 255]]

theorem plainRow_decodeRow :
    ∃ ws, decodeRow (boundRow plainRow) = .ok ws ∧ List.Forall₂ Value.Survives plainRow ws := by
  refine decodeRow_bindAll plainRow (boundRow plainRow) (by decide) ?_ ?_
  · rw [boundRow, List.map_map]
    rfl
  · intro cell hcell
    obtain ⟨v, -, rfl⟩ := List.mem_map.1 hcell
    rfl

end PreparedSql
