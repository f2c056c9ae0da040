import PreparedSql.Dialect
import PreparedSql.Text.Quoted
import PreparedSql.Value

/-!
# Literals

How a value stands in SQL text. Text of any kind stands in single quotes, with single quotes inside
written twice; a dialect in which a backslash escapes the next character has backslashes written
twice as well. Numbers and truth values stand bare, except the floating-point numbers that are not
finite, and bytes are an escape string with the hexadecimal digits.
-/

namespace PreparedSql

/-- What the server reads as an escape inside a string literal. -/
inductive Escaping where
  | quotes
  | quotesAndBackslashes
deriving DecidableEq, Repr

/-- Text as a string literal. -/
def Escaping.stringLiteral : Escaping → List Char → List Char
  | .quotes, cs => singleQuoted cs
  | .quotesAndBackslashes, cs => singleQuoted (doubled '\\' cs)

/-- A floating-point number: its shortest digits, or a word in quotes where it is not finite. -/
def floatLiteral (x : BinaryNumber) (digits : List Char) : List Char :=
  match x with
  | .nan => singleQuoted "NaN".toList
  | .infinite false => singleQuoted "Infinity".toList
  | .infinite true => singleQuoted "-Infinity".toList
  | .finite .. => digits

/-- An escape string with a backslash, an `x` and two digits a byte. -/
def bytesLiteral (bs : List UInt8) : List Char := ['E', '\'', '\\', 'x'] ++ hexBytes bs ++ ['\'']

/-- The value as it stands in SQL text. -/
def Value.literalChars (e : Escaping) : Value → List Char
  | .null => "NULL".toList
  | .bool true => "TRUE".toList
  | .bool false => "FALSE".toList
  | .int _ n => intText n.val
  | .f32 x => floatLiteral x.number x.plain
  | .f64 x => floatLiteral x.number x.plain
  | .string s => e.stringLiteral s.toList
  | .timestamp t => singleQuoted t.chars
  | .bytes bs => bytesLiteral bs
  | .uuid u => e.stringLiteral u.chars
  | .json j => e.stringLiteral j.chars
  | .vector xs => e.stringLiteral (Value.vectorChars xs)

def Value.literal (e : Escaping) (v : Value) : String := String.ofList (v.literalChars e)

namespace Dialect

/-- MySQL and TiDB read a backslash as an escape. -/
def escaping : Dialect → Escaping
  | .postgres => .quotes
  | .mysql | .tidb => .quotesAndBackslashes

def literal (d : Dialect) (v : Value) : String := v.literal d.escaping

end Dialect

end PreparedSql
