import PreparedSql.Number.Layout

/-!
# JSON documents

The value type and its compact text. The members of an object are kept in the order of their keys,
each key once; `Json.ofMembers` brings any list of members into that form.
-/

namespace PreparedSql

/-- A number of a document: an integer of 64 bits, signed or not, or a finite floating-point
number. -/
inductive JsonNumber where
  | integer (n : Int) (fits : -2 ^ 63 ≤ n ∧ n < 2 ^ 64)
  | real (x : Double) (finite : x.isFinite = true)
deriving DecidableEq

/-- The integer as a number of a document, if it fits. -/
def JsonNumber.ofInt? (n : Int) : Option JsonNumber :=
  if h : -2 ^ 63 ≤ n ∧ n < 2 ^ 64 then some (.integer n h) else none

inductive Json where
  | null
  | bool (b : Bool)
  | number (n : JsonNumber)
  | string (s : String)
  | array (items : List Json)
  | object (members : List (String × Json))

namespace Json

/-- The members with `key` set to `value`, in the order of the keys. -/
def insertMember (key : String) (value : Json) : List (String × Json) → List (String × Json)
  | [] => [(key, value)]
  | (k, v) :: rest =>
    if k < key then (k, v) :: insertMember key value rest
    else if k = key then (key, value) :: rest
    else (key, value) :: (k, v) :: rest

/-- An object of these members; of two with one key the later one counts. -/
def ofMembers (members : List (String × Json)) : Json :=
  .object (members.foldl (fun acc m => insertMember m.1 m.2 acc) [])

/-! ### Compact text -/

/-- Quotes, backslashes and control characters are escaped, the rest stands as it is. -/
def escapeChar (c : Char) : List Char :=
  match c with
  | '"' => ['\\', '"']
  | '\\' => ['\\', '\\']
  | '\n' => ['\\', 'n']
  | '\r' => ['\\', 'r']
  | '\t' => ['\\', 't']
  | _ =>
    if c.toNat = 8 then ['\\', 'b']
    else if c.toNat = 12 then ['\\', 'f']
    else if c.toNat < 32 then '\\' :: 'u' :: '0' :: '0' :: [Nat.digitChar (c.toNat / 16), Nat.digitChar (c.toNat % 16)]
    else [c]

def stringChars (s : String) : List Char := '"' :: (s.toList.flatMap escapeChar ++ ['"'])

def numberChars : JsonNumber → List Char
  | .integer n _ => signedText (n < 0) (decimalDigits n.natAbs)
  | .real x _ => x.scientific

mutual

/-- The text without blanks. -/
def chars : Json → List Char
  | .null => ['n', 'u', 'l', 'l']
  | .bool true => ['t', 'r', 'u', 'e']
  | .bool false => ['f', 'a', 'l', 's', 'e']
  | .number n => numberChars n
  | .string s => stringChars s
  | .array items => '[' :: (itemChars items ++ [']'])
  | .object members => '{' :: (memberChars members ++ ['}'])

def itemChars : List Json → List Char
  | [] => []
  | [item] => chars item
  | item :: rest => chars item ++ ',' :: itemChars rest

def memberChars : List (String × Json) → List Char
  | [] => []
  | [(key, value)] => stringChars key ++ ':' :: chars value
  | (key, value) :: rest => stringChars key ++ ':' :: (chars value ++ ',' :: memberChars rest)

end

def text (j : Json) : String := String.ofList j.chars

end Json

end PreparedSql
