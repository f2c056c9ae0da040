import PreparedSql.CommandLine.Binding
import PreparedSql.Pool.Url

/-!
# Arguments

A command line is a command and its options. An option has a long name and perhaps a letter; its
value follows the name or the letter directly, after an equals sign, or as the next argument, which
then must not look like an option. Letters can be joined, and a value ends such a group.

* `Request.read` takes the arguments to what they ask for.
-/

namespace PreparedSql

inductive UsageError where
  | noCommand
  | unknown (argument : String)
  | valueMissing (option : String)
  | valueUnexpected (option : String)
  | repeated (option : String)
  | required (option : String)
  | invalidDialect (name : String)
deriving DecidableEq, Repr

def UsageError.message : UsageError → String
  | .noCommand => "a command is required: render, config or exec"
  | .unknown argument => s!"unexpected argument '{argument}'"
  | .valueMissing option => s!"a value is required for '--{option}'"
  | .valueUnexpected option => s!"'--{option}' takes no value"
  | .repeated option => s!"'--{option}' cannot be used more than once"
  | .required option => s!"'--{option}' is required"
  | .invalidDialect name => s!"invalid dialect '{name}'"

/-- What is known of an option. -/
structure OptionRule where
  name       : String
  letter     : Option Char := none
  takesValue : Bool := true
  repeatable : Bool := false
  /-- Nothing after the option matters. -/
  last       : Bool := false
deriving DecidableEq, Repr

/-- An option as it is given, with its value if it takes one. -/
structure Given where
  option : OptionRule
  value  : String := ""
deriving DecidableEq, Repr

namespace OptionRule

def verbose : OptionRule where
  name       := "verbose"
  letter     := some 'v'
  takesValue := false

def version : OptionRule where
  name       := "version"
  letter     := some 'V'
  takesValue := false
  last       := true

def table : OptionRule where
  name   := "table"
  letter := some 't'

def columns : OptionRule where
  name       := "columns"
  letter     := some 'c'
  repeatable := true

def row : OptionRule where
  name       := "row"
  letter     := some 'r'
  repeatable := true

def returning : OptionRule where
  name       := "returning"
  repeatable := true

def dialect : OptionRule where
  name   := "dialect"
  letter := some 'd'

def databaseUrl : OptionRule where
  name := "database-url"

def bind : OptionRule where
  name       := "bind"
  letter     := some 'b'
  repeatable := true

/-- The options that say a statement. -/
def statement : List OptionRule := [table, columns, row, returning]

end OptionRule

/-! ### Options -/

/-- An argument that is read as options: a hyphen and more. -/
def looksLikeOption (argument : String) : Bool :=
  match argument.toList with
  | '-' :: _ :: _ => true
  | _ => false

/-- A group of letters: the options given, and one that still needs its value from the next
argument. -/
def readLetters (rules : List OptionRule) (argument : String) :
    List Char → Except UsageError (List Given × Option OptionRule)
  | [] => pure ([], none)
  | c :: cs =>
    match rules.find? (·.letter = some c) with
    | none => throw (.unknown argument)
    | some o =>
      if o.takesValue then
        match cs with
        | [] => pure ([], some o)
        | '=' :: value => pure ([⟨o, String.ofList value⟩], none)
        | value => pure ([⟨o, String.ofList value⟩], none)
      else if o.last then pure ([⟨o, ""⟩], none)
      else do
        let (given, pending) ← readLetters rules argument cs
        pure (⟨o, ""⟩ :: given, pending)

/-- A long name, perhaps with its value. -/
def readName (rules : List OptionRule) (argument : String) (cs : List Char) :
    Except UsageError (List Given × Option OptionRule) :=
  let (name, value) := match cutAt? ['='] cs with
    | some (name, value) => (String.ofList name, some (String.ofList value))
    | none => (String.ofList cs, none)
  match rules.find? (·.name = name), value with
  | none, _ => throw (.unknown argument)
  | some o, some value =>
    if o.takesValue then pure ([⟨o, value⟩], none) else throw (.valueUnexpected o.name)
  | some o, none => if o.takesValue then pure ([], some o) else pure ([⟨o, ""⟩], none)

/-- The options that one argument gives. -/
def readArgument (rules : List OptionRule) (argument : String) :
    Except UsageError (List Given × Option OptionRule) :=
  match argument.toList with
  | '-' :: '-' :: cs => readName rules argument cs
  | '-' :: c :: cs => readLetters rules argument (c :: cs)
  | _ => throw (.unknown argument)

/-- The options that the arguments give, where `pending` waits for its value. After a double hyphen
there is nothing that could be an option. -/
def readOptions (rules : List OptionRule) :
    (pending : Option OptionRule) → List String → Except UsageError (List Given)
  | some o, [] => throw (.valueMissing o.name)
  | some o, argument :: rest =>
    if looksLikeOption argument then throw (.valueMissing o.name)
    else (⟨o, argument⟩ :: ·) <$> readOptions rules none rest
  | none, [] => pure []
  | none, argument :: rest =>
    if argument = "--" then
      match rest with
      | [] => pure []
      | extra :: _ => throw (.unknown extra)
    else do
      let (given, pending) ← readArgument rules argument
      (given ++ ·) <$> readOptions rules pending rest

/-- Fails where an option that is not repeatable is given twice. -/
def checkRepeats (given : List Given) : Except UsageError Unit :=
  match firstRepeated? [] ((given.filter (!·.option.repeatable)).map (·.option.name)) with
  | some name => throw (.repeated name)
  | none => pure ()

/-- The values of an option in order. -/
def valuesOf (o : OptionRule) (given : List Given) : List String :=
  (given.filter (·.option = o)).map Given.value

/-- The values of an option, each a list with commas. -/
def itemsOf (o : OptionRule) (given : List Given) : List String :=
  (valuesOf o given).flatMap fun value => (splitAtEach ',' value.toList).map String.ofList

/-- The values of an option that is required, in a list that would be empty without it. -/
def requiring (o : OptionRule) (values : List String) : Except UsageError (List String) :=
  if values.isEmpty then throw (.required o.name) else pure values

/-! ### Commands -/

/-- A statement as the options say it. -/
structure StatementTexts where
  table     : String
  columns   : List String
  rows      : List String
  returning : List String := []
deriving DecidableEq, Repr

def StatementTexts.statement (s : StatementTexts) : Insert where
  table     := .ofString s.table
  columns   := s.columns
  rows      := s.rows.map cellsOfText
  returning := s.returning

inductive Command where
  /-- Show the SQL of a statement. -/
  | render (s : StatementTexts) (d : Dialect)
  /-- Show the pool configuration. -/
  | config
  /-- Run a statement. -/
  | exec (s : StatementTexts) (databaseUrl : Option String) (bindings : List String)
deriving DecidableEq, Repr

/-- What the arguments ask for. -/
inductive Request where
  | version
  | run (c : Command)
deriving DecidableEq, Repr

def readStatement (given : List Given) : Except UsageError StatementTexts := do
  let tables ← requiring .table (valuesOf .table given)
  let columns ← requiring .columns (itemsOf .columns given)
  let rows ← requiring .row (valuesOf .row given)
  pure ⟨tables.headD "", columns, rows, itemsOf .returning given⟩

/-- The dialect that the options name, PostgreSQL where they name none. -/
def readDialect (given : List Given) : Except UsageError Dialect :=
  match valuesOf .dialect given with
  | [] => pure .postgres
  | name :: _ =>
    match Dialect.ofName name with
    | .ok d => pure d
    | .error _ => throw (.invalidDialect name)

/-- The options of a command; each command can be asked to be verbose. -/
def readCommandOptions (rules : List OptionRule) (arguments : List String) :
    Except UsageError (List Given) := do
  let given ← readOptions (.verbose :: rules) none arguments
  checkRepeats given
  pure given

/-- The command of a name, with its options. -/
def readCommand (name : String) (arguments : List String) : Except UsageError Command :=
  match name with
  | "render" => do
    let given ← readCommandOptions (OptionRule.dialect :: OptionRule.statement) arguments
    pure (.render (← readStatement given) (← readDialect given))
  | "config" => do
    let _ ← readCommandOptions [] arguments
    pure .config
  | "exec" => do
    let given ← readCommandOptions (.databaseUrl :: .bind :: OptionRule.statement) arguments
    pure (.exec (← readStatement given) (valuesOf .databaseUrl given).head? (valuesOf .bind given))
  | _ => throw (.unknown name)

/-- The arguments from the first on that is not an option; `given` are the options before it. -/
def readRequest : (given : List Given) → List String → Except UsageError Request
  | _, [] => throw .noCommand
  | given, argument :: rest =>
    if argument = "--" then throw .noCommand
    else if looksLikeOption argument then do
      let (more, _) ← readArgument [.verbose, .version] argument
      checkRepeats (given ++ more)
      if (given ++ more).any (·.option.last) then pure .version
      else readRequest (given ++ more) rest
    else .run <$> readCommand argument rest

/-- What the arguments ask for. -/
def Request.read (arguments : List String) : Except UsageError Request := readRequest [] arguments

end PreparedSql
