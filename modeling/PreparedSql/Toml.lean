import PreparedSql.Number.Reading

/-!
# TOML documents

The value type, and a document as the list of its entries: members, table headers, and headers of
table items. `Toml.ofEntries?` puts the entries together and refuses a document that defines
something twice.

A table is open for new members according to how it came to be. A table with a header of its own
gets its members below that header; one that only longer headers name can still get a header; one
made by dotted keys can only be extended by dotted keys.
-/

namespace PreparedSql

/-- How a table came to be. -/
inductive TableOrigin where
  /-- It has a header of its own. -/
  | header
  /-- Only longer headers name it. -/
  | implied
  /-- Dotted keys name it. -/
  | dotted
deriving DecidableEq, Repr

inductive Toml where
  | string (s : String)
  | integer (n : Int)
  | float (x : Double)
  | boolean (b : Bool)
  /-- A date, a time of day, or both. -/
  | moment
  | array (items : List Toml)
  /-- A table in braces; nothing can be added to it. -/
  | closedTable (members : List (String × Toml))
  | table (origin : TableOrigin) (members : List (String × Toml))
  /-- The tables of a repeated header, the last one first. -/
  | tableItems (newest : List (String × Toml)) (others : List (List (String × Toml)))

namespace Toml

/-- The members of a table, in any order, each name once. -/
abbrev Members := List (String × Toml)

/-- A key: its last name, after the names of the tables it stands in. -/
structure Key where
  tables : List String
  name   : String
deriving DecidableEq, Repr

/-- An entry of a document. -/
inductive Entry where
  /-- `key = value` -/
  | member (key : Key) (value : Toml)
  /-- `[key]` -/
  | header (key : Key)
  /-- `[[key]]` -/
  | itemHeader (key : Key)

/-- The member with a name. -/
def Members.get? (ms : Members) (name : String) : Option Toml := List.lookup name ms

/-- The member set, in place of any member of that name. -/
def Members.set (name : String) (value : Toml) : Members → Members
  | [] => [(name, value)]
  | (k, v) :: rest => if k = name then (name, value) :: rest else (k, v) :: set name value rest

/-! ### Putting entries together -/

/-- Whether a table is named by keys or by headers. -/
inductive Naming where
  | byKey
  | byHeader
deriving DecidableEq, Repr

/-- The members with the table at `path` changed by `f`, which is told how that table came to be.
Tables on the way that are not there are made; a table with a header of its own is closed to dotted
keys, and of table items the newest is meant. -/
def changeAt (naming : Naming) (f : TableOrigin → Members → Option Members) :
    (path : List String) → TableOrigin → Members → Option Members
  | [], origin, ms => f origin ms
  | name :: path, _, ms =>
    match ms.get? name with
    | none =>
      let origin := match naming with
        | .byKey => .dotted
        | .byHeader => .implied
      (changeAt naming f path origin []).map fun inner => ms.set name (.table origin inner)
    | some (.table origin inner) =>
      if naming = .byKey ∧ origin = .header then none
      else (changeAt naming f path origin inner).map fun inner => ms.set name (.table origin inner)
    | some (.tableItems newest others) =>
      (changeAt naming f path .header newest).map fun newest =>
        ms.set name (.tableItems newest others)
    | some _ => none

/-- A member under a key. A key without dots is for the table itself, a dotted key for a table that
dotted keys made; and no name is given twice. -/
def addMember (key : Key) (value : Toml) (origin : TableOrigin) (ms : Members) : Option Members :=
  let add (last : TableOrigin) (ms : Members) : Option Members :=
    if key.tables ≠ [] ∧ last ≠ .dotted then none
    else if (ms.get? key.name).isSome then none
    else some (ms.set key.name value)
  changeAt .byKey add key.tables origin ms

/-- The table of a header: new, or one that only longer headers have named so far. -/
def openTable (name : String) (ms : Members) : Option Members :=
  match ms.get? name with
  | none => some (ms.set name (.table .header []))
  | some (.table .implied inner) => some (ms.set name (.table .header inner))
  | some _ => none

/-- One more table item. -/
def openItem (name : String) (ms : Members) : Option Members :=
  match ms.get? name with
  | none => some (ms.set name (.tableItems [] []))
  | some (.tableItems newest others) => some (ms.set name (.tableItems [] (newest :: others)))
  | some _ => none

/-- A document being put together: its members, and the path of the latest header. -/
structure Document where
  members : Members := []
  here    : List String := []

/-- The document with one more entry. -/
def Document.add (d : Document) : Entry → Option Document
  | .member key value =>
    (changeAt .byHeader (addMember key value) d.here .header d.members).map fun ms =>
      { d with members := ms }
  | .header key =>
    (changeAt .byHeader (fun _ => openTable key.name) key.tables .header d.members).map fun ms =>
      ⟨ms, key.tables ++ [key.name]⟩
  | .itemHeader key =>
    (changeAt .byHeader (fun _ => openItem key.name) key.tables .header d.members).map fun ms =>
      ⟨ms, key.tables ++ [key.name]⟩

/-- The members of a document. -/
def ofEntries? (entries : List Entry) : Option Members :=
  (entries.foldlM Document.add {}).map Document.members

/-- The members of a table in braces. -/
def ofMembers? (members : List (Key × Toml)) : Option Members :=
  members.foldlM (fun ms m => addMember m.1 m.2 .header ms) []

end Toml

end PreparedSql
