import PreparedSql.CommandLine.Arguments
import PreparedSql.Pool.Server
import PreparedSql.Session

/-!
# Commands

What the commands print, and how they end. A command sees its surroundings as data: where the
configuration file belongs, what it holds, and the database URL of the environment.

* `Command.run` is the outcome of a command; `exec` reaches its database through a `Server`.
* `answer` is the outcome of a whole command line.
-/

namespace PreparedSql

/-- What a command prints, and its exit code. -/
structure Outcome where
  exit   : Nat := 0
  stdout : String := ""
  stderr : String := ""
deriving DecidableEq, Repr

/-- An error, after what was printed before it. -/
def Outcome.failed (printed text : String) : Outcome := ⟨1, printed, s!"Error: {text}\n"⟩

structure Surroundings where
  /-- Where the configuration file belongs, on systems that have such a place. -/
  configPath  : Option String
  /-- The contents of the configuration file, if it is there. -/
  configFile  : Option ByteArray
  /-- The database URL of the environment. -/
  databaseUrl : Option String

/-- The configuration of the file, or defaults without a file; the environment's URL counts more. -/
def Surroundings.configuration (s : Surroundings) : Except Error PoolConfiguration := do
  let c ← match s.configFile with
    | none => pure {}
    | some _ => PoolConfiguration.load s.configFile
  pure (match s.databaseUrl with
    | some url => { c with url }
    | none => c)

namespace StatementTexts

/-- The lines that say which value each bind slot takes. -/
def bindingLines (d : Dialect) (slots : List Slot) : String :=
  String.join (slots.zipIdx.map fun p => "  " ++ d.placeholder (p.2 + 1) ++ " <- " ++ p.1.text ++ "\n")

/-- The SQL of the statement with its fingerprint, its name once prepared, and its bind slots. -/
def render (s : StatementTexts) (d : Dialect) : Outcome :=
  let node := Node.insert s.statement
  match node.render { dialect := d } with
  | .error e => .failed "" e.message
  | .ok r =>
    let fingerprint := fingerprintText (queryKey d none node)
    let bindings := if r.slots.isEmpty then "" else "\nBindings:\n" ++ bindingLines d r.slots
    { stdout := "Dialect: " ++ d.name ++ "\nFingerprint: " ++ fingerprint ++
        "\nStatement: " ++ statementKey r.sql ++ "\n\nGenerated SQL:\n" ++ r.sql ++ "\n" ++ bindings }

/-- Runs the statement in one session, and says how many rows it affected. -/
def exec {σ η : Type} (server : Server σ η) (surroundings : Surroundings) (s : StatementTexts)
    (databaseUrl : Option String) (bindings : List String) : Outcome :=
  let prepared : Except String (PoolConfiguration × Bindings) := do
    let c ← surroundings.configuration.mapError Error.message
    s.statement.validate.mapError Error.message
    let b ← (Bindings.ofTexts bindings).mapError BindingError.message
    pure ({ c with url := databaseUrl.getD c.url }, b)
  match prepared with
  | .error text => .failed "" text
  | .ok (c, b) =>
    match server.connect c with
    | .error e =>
      let url := c.url
      let cause := e.message
      .failed "" s!"connecting to {url}: {cause}"
    | .ok (d, link) =>
      let session : Session (fun _ : Unit => Unit) σ η := { statements := { link } }
      let (affected, session) :=
        session.execute server.connection { dialect := d } (.insert s.statement) b
      let (closed, _) := session.close server.connection
      match affected, closed with
      | .error e, _ => .failed "" e.message
      | .ok n, .ok () => { stdout := s!"Rows affected: {n}\n" }
      | .ok n, .error e => .failed s!"Rows affected: {n}\n" e.message

end StatementTexts

/-- Where the configuration file belongs and whether it is there, and the configuration. -/
def showConfiguration (s : Surroundings) : Outcome :=
  let file := match s.configPath with
    | none => "No config directory on this platform\n"
    | some path =>
      let absent := if s.configFile.isSome then "" else " (not found)"
      s!"Config file: {path}{absent}\n"
  match s.configuration with
  | .error e => .failed file e.message
  | .ok c =>
    match c.toToml with
    | .error e => .failed (file ++ "\n") e.message
    | .ok text => { stdout := file ++ "\n" ++ text }

def Command.run {σ η : Type} (server : Server σ η) (surroundings : Surroundings) :
    Command → Outcome
  | .render s d => s.render d
  | .config => showConfiguration surroundings
  | .exec s databaseUrl bindings => s.exec server surroundings databaseUrl bindings

/-- The name and the version of the program. -/
def versionText : String := "sqlcache 0.1.0\n"

/-- The outcome of a command line. -/
def answer {σ η : Type} (server : Server σ η) (surroundings : Surroundings)
    (arguments : List String) : Outcome :=
  match Request.read arguments with
  | .error e => { exit := 2, stderr := "error: " ++ e.message ++ "\n" }
  | .ok .version => { stdout := versionText }
  | .ok (.run c) => c.run server surroundings

end PreparedSql
