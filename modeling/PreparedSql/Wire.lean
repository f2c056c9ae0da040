import PreparedSql.Value.Conversion

/-!
# Wire values

The driver knows nine kinds of values. A timestamp, a UUID, a document, a vector, and an integer
too large for any signed kind travel as their canonical text; any other integer is sent in the
narrowest signed kind that holds all integers of its type. Decoding is by the name of the column's
type: integer columns take an integer of any kind that fits them, other columns take their own
kind, and a null is read from a column of nulls only.
-/

namespace PreparedSql

inductive WireKind where
  | null
  | boolean
  | smallint
  | integer
  | bigint
  | real
  | double
  | text
  | blob
deriving DecidableEq, Repr

inductive WireValue where
  | null
  | boolean (b : Bool)
  | smallint (n : FixedInt .i16)
  | integer (n : FixedInt .i32)
  | bigint (n : FixedInt .i64)
  | real (x : Single)
  | double (x : Double)
  | text (s : String)
  | blob (bs : List UInt8)
deriving DecidableEq

namespace WireKind

/-- The kind's name in a column's type. -/
def name : WireKind → String
  | .null => "NULL"
  | .boolean => "BOOLEAN"
  | .smallint => "SMALLINT"
  | .integer => "INTEGER"
  | .bigint => "BIGINT"
  | .real => "REAL"
  | .double => "DOUBLE"
  | .text => "TEXT"
  | .blob => "BLOB"

def all : List WireKind :=
  [.null, .boolean, .smallint, .integer, .bigint, .real, .double, .text, .blob]

def ofName? (name : String) : Option WireKind := all.find? (·.name = name)

/-- The kind that a column is read as, by the name of its type; what is not known is read as
text. -/
def ofColumnType : String → WireKind
  | "BOOLEAN" | "BOOL" => .boolean
  | "SMALLINT" | "INT2" => .smallint
  | "INTEGER" | "INT4" | "INT" => .integer
  | "BIGINT" | "INT8" => .bigint
  | "REAL" | "FLOAT4" => .real
  | "DOUBLE" | "FLOAT8" => .double
  | "BLOB" | "BYTEA" => .blob
  | "NULL" => .null
  | _ => .text

end WireKind

namespace WireValue

def kind : WireValue → WireKind
  | .null => .null
  | .boolean _ => .boolean
  | .smallint _ => .smallint
  | .integer _ => .integer
  | .bigint _ => .bigint
  | .real _ => .real
  | .double _ => .double
  | .text _ => .text
  | .blob _ => .blob

/-- The integer, for any of the three integer kinds. -/
def int? : WireValue → Option Int
  | .smallint n => some n.val
  | .integer n => some n.val
  | .bigint n => some n.val
  | _ => none

end WireValue

/-- The integer in a type that holds all integers of its own. -/
def FixedInt.widen {v : Width} (w : Width) (n : FixedInt v) (lo : w.lo ≤ v.lo) (hi : v.hi ≤ w.hi) :
    FixedInt w := ⟨n.val, Int.le_trans lo n.ge, Int.le_trans n.le hi⟩

/-- The 64 bits of an integer without a sign, read as those of a signed one. -/
def FixedInt.asSigned (n : FixedInt .u64) : FixedInt .i64 where
  val := n.val.bmod (2 ^ 64)
  ge  := by
    have := Int.le_bmod (x := n.val) (m := 2 ^ 64) (by decide)
    simp only [Width.lo]
    omega
  le  := by
    have := Int.bmod_lt (x := n.val) (m := 2 ^ 64) (by decide)
    simp only [Width.hi]
    omega

namespace Value

/-- The canonical text, for values that travel as text. -/
def wireText? : Value → Option String
  | .timestamp t => some t.text
  | .uuid u => some u.text
  | .json j => some j.text
  | .vector xs => some (Value.vector xs).text
  | .int .u64 n => if n.val ≤ Width.i64.hi then none else some (Value.int .u64 n).text
  | _ => none

/-- The signed kind for the integers of a type; those of 64 bits without a sign go by their bits. -/
def bindInt : (w : Width) → FixedInt w → WireValue
  | .i8, n => .smallint (n.widen .i16 (by decide) (by decide))
  | .i16, n => .smallint n
  | .i32, n => .integer n
  | .i64, n => .bigint n
  | .u8, n => .smallint (n.widen .i16 (by decide) (by decide))
  | .u16, n => .integer (n.widen .i32 (by decide) (by decide))
  | .u32, n => .bigint (n.widen .i64 (by decide) (by decide))
  | .u64, n => .bigint n.asSigned

/-- What the driver is handed for a bound value. -/
def bind (v : Value) : WireValue :=
  match v.wireText? with
  | some text => .text text
  | none =>
    match v with
    | .null => .null
    | .bool b => .boolean b
    | .int w n => bindInt w n
    | .f32 x => .real x
    | .f64 x => .double x
    | .string s => .text s
    | .bytes bs => .blob bs
    | other => .text other.text

/-- What the driver is handed for the values of a call, in order. -/
def bindAll (vs : List Value) : List WireValue := vs.map bind

end Value

namespace WireValue

/-- The integer of a column, if it fits the column's type. -/
def decodeInt? (w : Width) (v : WireValue) : Option Value :=
  (v.int?.bind (FixedInt.ofInt? w)).map (.int w)

/-- The value in a column of some kind, if the column can hold it.  That a value is missing is told
by the kind of the column alone: a null in a column of any other kind is refused. -/
def decode? : (column : WireKind) → WireValue → Option Value
  | .null, _ => some .null
  | .boolean, .boolean b => some (.bool b)
  | .smallint, v => v.decodeInt? .i16
  | .integer, v => v.decodeInt? .i32
  | .bigint, v => v.decodeInt? .i64
  | .real, .real x => some (.f32 x)
  | .double, .double x => some (.f64 x)
  | .text, .text s => some (.string s)
  | .blob, .blob bs => some (.bytes bs)
  | _, _ => none

end WireValue

/-- A cell of a result: the column's name and kind, and the value. -/
structure WireCell where
  name  : String
  kind  : WireKind
  value : WireValue

/-- The values of a row; an error names the first column that cannot be decoded. -/
def decodeRow : List WireCell → Except Error (List Value)
  | [] => pure []
  | cell :: rest =>
    match cell.value.decode? (.ofColumnType cell.kind.name) with
    | none =>
      let column := cell.kind.name
      let sent := cell.value.kind.name
      throw (.scan cell.name s!"a {column} column does not hold a {sent} value")
    | some v => (v :: ·) <$> decodeRow rest

end PreparedSql
