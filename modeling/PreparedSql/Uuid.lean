import PreparedSql.Text.Hex
import PreparedSql.Text.Basic

/-!
# UUIDs

A number of 128 bits. Its text is 32 lower-case hexadecimal digits in groups of 8, 4, 4, 4 and 12;
reading also takes the digits without hyphens, hyphenated digits in braces, and hyphenated digits
after `urn:uuid:`, all in either letter case.
-/

namespace PreparedSql

structure Uuid where
  val : BitVec 128
deriving DecidableEq, Repr

namespace Uuid

def nil : Uuid := ⟨0⟩

def chars (u : Uuid) : List Char :=
  let ds := hexDigits 32 u.val.toNat
  ds.take 8 ++ '-' :: (ds.drop 8).take 4 ++ '-' :: (ds.drop 12).take 4 ++
    '-' :: (ds.drop 16).take 4 ++ '-' :: ds.drop 20

def text (u : Uuid) : String := String.ofList u.chars

def ofDigits? (ds : List Char) : Option Uuid := (readHex? ds).map fun n => ⟨.ofNat 128 n⟩

/-- Five groups of 8, 4, 4, 4 and 12 digits with hyphens between them. -/
def hyphenated? (cs : List Char) : Option Uuid :=
  let groups := splitAtEach '-' cs
  if groups.map List.length = [8, 4, 4, 4, 12] then ofDigits? groups.flatten else none

def read? (s : String) : Option Uuid :=
  let cs := s.toList
  if cs.length = 32 then ofDigits? cs
  else if cs.length = 38 then
    match cs with
    | '{' :: rest => if rest.getLast? = some '}' then hyphenated? rest.dropLast else none
    | _ => none
  else if (cs.take 9).map Char.toLower = "urn:uuid:".toList then hyphenated? (cs.drop 9)
  else hyphenated? cs

end Uuid

end PreparedSql
