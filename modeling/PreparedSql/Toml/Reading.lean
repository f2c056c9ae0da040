import PreparedSql.Toml.Quoted
import PreparedSql.Toml.Scalar

/-!
# Reading TOML

`Toml.entries?` takes a document apart into its entries, line by line, and `Toml.read?` puts them
together. Arrays and tables in braces may stand at most 79 deep, and a key has at most 79 names.
-/

namespace PreparedSql.Toml

/-- Arrays and tables in braces may stand inside one another, and names in a key, less often than
this. -/
def nestingLimit : Nat := 80

/-! ### Blanks -/

/-- The text after spaces, tabs, newlines and comments; in a comment if `comment`. -/
def skipFiller : (comment : Bool) → List Char → List Char
  | _, [] => []
  | _, '\r' :: '\n' :: rest => skipFiller false rest
  | comment, c :: rest =>
    if c = '\n' then skipFiller false rest
    else if comment then (if isPlain c then skipFiller true rest else c :: rest)
    else if c = '#' then skipFiller true rest
    else if c = ' ' ∨ c = '\t' then skipFiller false rest
    else c :: rest

/-- What follows the end of a line; a comment may stand before it, and the text may end there. -/
def lineEnd? (cs : List Char) : Option (List Char) :=
  let rest := match skipSpaces cs with
    | '#' :: rest => rest.dropWhile isPlain
    | rest => rest
  if rest.isEmpty then some [] else newline? rest

/-! ### Keys -/

/-- A character of a name without quotes. -/
def isBare (c : Char) : Bool := c.isAlphanum || c = '-' || c = '_'

/-- A name of a key: bare, or a string on one line. -/
def keyName? (cs : List Char) : Option (String × List Char) :=
  let name? := match cs with
    | '"' :: rest => lineText? .basic (cs.length + 1) rest
    | '\'' :: rest => lineText? .literal (cs.length + 1) rest
    | _ =>
      let name := cs.takeWhile isBare
      if name.isEmpty then none else some (name, cs.drop name.length)
  name?.map fun p => (String.ofList p.1, p.2)

/-- One or more names with points between them, and what follows the spaces after them. -/
def keyNames? : (fuel : Nat) → List Char → Option (List String × List Char)
  | 0, _ => none
  | fuel + 1, cs => do
    let (name, rest) ← keyName? (skipSpaces cs)
    match skipSpaces rest with
    | '.' :: rest => do
      let (names, rest) ← keyNames? fuel rest
      pure (name :: names, rest)
    | rest => pure ([name], rest)

def key? (cs : List Char) : Option (Key × List Char) := do
  let (names, rest) ← keyNames? (cs.length + 1) cs
  match names.getLast? with
  | some name => if names.length < nestingLimit then pure (⟨names.dropLast, name⟩, rest) else none
  | none => none

/-! ### Values -/

mutual

/-- A value, and what follows it; `depth` arrays and tables in braces may still be opened. -/
def value? : (fuel depth : Nat) → List Char → Option (Toml × List Char)
  | 0, _, _ => none
  | fuel + 1, depth, cs =>
    match cs with
    | '"' :: _ | '\'' :: _ => (string? cs).map fun p => (.string p.1, p.2)
    | '[' :: rest =>
      match depth, skipFiller false rest with
      | 0, _ => none
      | _ + 1, ']' :: rest => some (.array [], rest)
      | depth + 1, rest => (items? fuel depth rest).map fun p => (.array p.1, p.2)
    | '{' :: rest =>
      match depth, skipSpaces rest with
      | 0, _ => none
      | _ + 1, '}' :: rest => some (.closedTable [], rest)
      | depth + 1, rest => do
        let (members, rest) ← members? fuel depth rest
        pure (.closedTable (← ofMembers? members), rest)
    | _ => scalar? cs

/-- One or more values with commas between them, up to the closing bracket; a comma may also stand
after the last. -/
def items? : (fuel depth : Nat) → List Char → Option (List Toml × List Char)
  | 0, _, _ => none
  | fuel + 1, depth, cs => do
    let (item, rest) ← value? fuel depth cs
    match skipFiller false rest with
    | ']' :: rest => pure ([item], rest)
    | ',' :: rest =>
      match skipFiller false rest with
      | ']' :: rest => pure ([item], rest)
      | rest => do
        let (others, rest) ← items? fuel depth rest
        pure (item :: others, rest)
    | _ => none

/-- One or more members with commas between them, up to the closing brace. -/
def members? : (fuel depth : Nat) → List Char → Option (List (Key × Toml) × List Char)
  | 0, _, _ => none
  | fuel + 1, depth, cs => do
    let (key, rest) ← key? cs
    let (value, rest) ← value? fuel depth (skipSpaces (← afterStart? ['='] rest))
    match skipSpaces rest with
    | '}' :: rest => pure ([(key, value)], rest)
    | ',' :: rest => do
      let (others, rest) ← members? fuel depth rest
      pure ((key, value) :: others, rest)
    | _ => none

end

/-! ### Documents -/

/-- A header after its opening brackets, or a member; and what follows the end of its line. -/
def entry? (cs : List Char) : Option (Entry × List Char) :=
  match cs with
  | '[' :: '[' :: rest => do
    let (key, rest) ← key? rest
    pure (.itemHeader key, ← lineEnd? (← afterStart? [']', ']'] rest))
  | '[' :: rest => do
    let (key, rest) ← key? rest
    pure (.header key, ← lineEnd? (← afterStart? [']'] rest))
  | _ => do
    let (key, rest) ← key? cs
    let rest := skipSpaces (← afterStart? ['='] rest)
    let (value, rest) ← value? (rest.length + 1) (nestingLimit - 1) rest
    pure (.member key value, ← lineEnd? rest)

/-- The entries of a document; lines that are blank or only a comment have none. -/
def entries? : (fuel : Nat) → List Char → Option (List Entry)
  | 0, _ => none
  | fuel + 1, cs =>
    match skipSpaces cs with
    | [] => some []
    | c :: rest =>
      if c = '#' ∨ c = '\n' ∨ c = '\r' then (lineEnd? (c :: rest)).bind (entries? fuel)
      else do
        let (entry, rest) ← entry? (c :: rest)
        let entries ← entries? fuel rest
        pure (entry :: entries)

/-- The members of the document that the text writes; a byte order mark in front is left out. -/
def read? (s : String) : Option Members :=
  let cs := match s.toList with
    | '\uFEFF' :: rest => rest
    | cs => cs
  (entries? (cs.length + 1) cs).bind ofEntries?

end PreparedSql.Toml
