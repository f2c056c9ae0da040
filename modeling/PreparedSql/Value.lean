import PreparedSql.Json
import PreparedSql.Timestamp
import PreparedSql.Uuid

/-!
# Values

A `Value` is a literal with its logical type. `Value.kind` is that type and `Value.text` the
canonical text, the same in every locale; fingerprints are made of these two.
-/

namespace PreparedSql

/-- The integer types, by signedness and number of bits. -/
inductive Width where
  | i8 | i16 | i32 | i64
  | u8 | u16 | u32 | u64
deriving DecidableEq, Repr

namespace Width

def name : Width → String
  | .i8 => "i8"
  | .i16 => "i16"
  | .i32 => "i32"
  | .i64 => "i64"
  | .u8 => "u8"
  | .u16 => "u16"
  | .u32 => "u32"
  | .u64 => "u64"

/-- The least integer of the type. -/
def lo : Width → Int
  | .i8 => -2 ^ 7
  | .i16 => -2 ^ 15
  | .i32 => -2 ^ 31
  | .i64 => -2 ^ 63
  | .u8 | .u16 | .u32 | .u64 => 0

/-- The greatest integer of the type. -/
def hi : Width → Int
  | .i8 => 2 ^ 7 - 1
  | .i16 => 2 ^ 15 - 1
  | .i32 => 2 ^ 31 - 1
  | .i64 => 2 ^ 63 - 1
  | .u8 => 2 ^ 8 - 1
  | .u16 => 2 ^ 16 - 1
  | .u32 => 2 ^ 32 - 1
  | .u64 => 2 ^ 64 - 1

end Width

/-- The integers of one type. -/
structure FixedInt (w : Width) where
  val  : Int
  ge   : w.lo ≤ val
  le   : val ≤ w.hi
deriving DecidableEq

/-- The integer in the type, if it fits. -/
def FixedInt.ofInt? (w : Width) (n : Int) : Option (FixedInt w) :=
  if h : w.lo ≤ n ∧ n ≤ w.hi then some ⟨n, h.1, h.2⟩ else none

def FixedInt.zero (w : Width) : FixedInt w := ⟨0, by cases w <;> decide, by cases w <;> decide⟩

inductive Value where
  | null
  | bool (b : Bool)
  | int (w : Width) (n : FixedInt w)
  | f32 (x : Single)
  | f64 (x : Double)
  | string (s : String)
  | timestamp (t : Timestamp)
  | bytes (bs : List UInt8)
  | uuid (u : Uuid)
  | json (j : Json)
  | vector (xs : List Single)

/-- The logical type of a value. -/
inductive ValueKind where
  | null
  | bool
  | int (w : Width)
  | f32
  | f64
  | string
  | timestamp
  | bytes
  | uuid
  | json
  | vector
deriving DecidableEq, Repr

/-- The stable name of a kind. -/
def ValueKind.name : ValueKind → String
  | .null => "null"
  | .bool => "bool"
  | .int w => w.name
  | .f32 => "f32"
  | .f64 => "f64"
  | .string => "string"
  | .timestamp => "timestamp"
  | .bytes => "bytes"
  | .uuid => "uuid"
  | .json => "json"
  | .vector => "vector"

/-- An integer in decimal, with a minus sign where it is negative. -/
def intText (n : Int) : List Char := signedText (n < 0) (decimalDigits n.natAbs)

namespace Value

def kind : Value → ValueKind
  | .null => .null
  | .bool _ => .bool
  | .int w _ => .int w
  | .f32 _ => .f32
  | .f64 _ => .f64
  | .string _ => .string
  | .timestamp _ => .timestamp
  | .bytes _ => .bytes
  | .uuid _ => .uuid
  | .json _ => .json
  | .vector _ => .vector

def isNull : Value → Bool
  | .null => true
  | _ => false

/-- The integer, for a value of any integer type. -/
def int? : Value → Option Int
  | .int _ n => some n.val
  | _ => none

/-- A vector in brackets, the numbers with commas between them. -/
def vectorChars (xs : List Single) : List Char :=
  '[' :: (joinWith [','] (xs.map Single.plain) ++ [']'])

/-- The canonical text. -/
def text : Value → String
  | .null => "NULL"
  | .bool true => "true"
  | .bool false => "false"
  | .int _ n => String.ofList (intText n.val)
  | .f32 x => String.ofList x.plain
  | .f64 x => String.ofList x.plain
  | .string s => s
  | .timestamp t => t.text
  | .bytes bs => String.ofList (hexBytes bs)
  | .uuid u => u.text
  | .json j => j.text
  | .vector xs => String.ofList (vectorChars xs)

end Value

end PreparedSql
