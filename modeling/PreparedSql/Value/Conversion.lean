import PreparedSql.Error
import PreparedSql.Json.Reading

/-!
# Column types

A column type can be loaded from a value and stored as one. Integers are loaded from any integer
type that fits, texts that write a timestamp, a UUID or a JSON document are read, and null is
loaded by an optional type only.
-/

namespace PreparedSql

/-- A type that a column's value can be loaded into, and stored from. -/
class ColumnType (α : Type) where
  load  : Value → Except ConversionError α
  store : α → Value

namespace Value

def loadInt (w : Width) (v : Value) : Except ConversionError (FixedInt w) :=
  match v.int? with
  | none => throw (.mismatch v.kind w.name)
  | some n =>
    match FixedInt.ofInt? w n with
    | some x => pure x
    | none => throw (.outOfRange n w)

/-- Both formats, and integers rounded to the nearest. -/
def loadDouble : Value → Except ConversionError Double
  | .f64 x => pure x
  | .f32 x => pure x.toDouble
  | .int _ n => pure (.ofInt n.val)
  | v => throw (.mismatch v.kind "f64")

def loadSingle : Value → Except ConversionError Single
  | .f32 x => pure x
  | .f64 x => pure x.toSingle
  | v => throw (.mismatch v.kind "f32")

/-- Truth values, and the integers 0 and 1. -/
def loadBool (v : Value) : Except ConversionError Bool :=
  match v with
  | .bool b => pure b
  | v =>
    if v.int? = some 0 then pure false
    else if v.int? = some 1 then pure true
    else throw (.mismatch v.kind "bool")

def loadString : Value → Except ConversionError String
  | .string s => pure s
  | v => throw (.mismatch v.kind "String")

/-- Bytes, and the UTF-8 bytes of a text. -/
def loadBytes : Value → Except ConversionError (List UInt8)
  | .bytes bs => pure bs
  | .string s => pure s.toUTF8.toList
  | v => throw (.mismatch v.kind "Vec<u8>")

def loadTimestamp : Value → Except ConversionError Timestamp
  | .timestamp t => pure t
  | .string s =>
    match Timestamp.read? s with
    | some t => pure t
    | none => throw (.invalidTimestamp s)
  | v => throw (.mismatch v.kind "NaiveDateTime")

def loadUuid : Value → Except ConversionError Uuid
  | .uuid u => pure u
  | .string s =>
    match Uuid.read? s with
    | some u => pure u
    | none => throw (.invalidUuid s)
  | v => throw (.mismatch v.kind "Uuid")

def loadJson : Value → Except ConversionError Json
  | .json j => pure j
  | .string s =>
    match Json.read? s with
    | some j => pure j
    | none => throw .invalidJson
  | v => throw (.mismatch v.kind "json")

def loadVector : Value → Except ConversionError (List Single)
  | .vector xs => pure xs
  | v => throw (.mismatch v.kind "Vec<f32>")

end Value

instance (w : Width) : ColumnType (FixedInt w) := ⟨Value.loadInt w, .int w⟩
instance : ColumnType Double := ⟨Value.loadDouble, .f64⟩
instance : ColumnType Single := ⟨Value.loadSingle, .f32⟩
instance : ColumnType Bool := ⟨Value.loadBool, .bool⟩
instance : ColumnType String := ⟨Value.loadString, .string⟩
instance : ColumnType (List UInt8) := ⟨Value.loadBytes, .bytes⟩
instance : ColumnType Timestamp := ⟨Value.loadTimestamp, .timestamp⟩
instance : ColumnType Uuid := ⟨Value.loadUuid, .uuid⟩
instance : ColumnType Json := ⟨Value.loadJson, .json⟩
instance : ColumnType (List Single) := ⟨Value.loadVector, .vector⟩
instance : ColumnType Value := ⟨pure, id⟩

/-- Null is the absent value, and any other value is loaded as the type itself. -/
instance {α : Type} [ColumnType α] : ColumnType (Option α) where
  load
    | .null => pure none
    | v => some <$> ColumnType.load v
  store
    | none => .null
    | some x => ColumnType.store x

end PreparedSql
