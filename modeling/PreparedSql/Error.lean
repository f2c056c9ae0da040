import PreparedSql.Dialect
import PreparedSql.Value

/-!
# Errors

What can go wrong, by cause; `Error.message` is the text of each. `RenderError` is why a statement
cannot be written in a dialect, `ConversionError` why a value does not fit a type, and
`ConfigError` why a configuration or a database URL is of no use.
-/

namespace PreparedSql

inductive RenderError where
  | noColumns (table : String)
  | duplicateColumn (column : String)
  | noRows (table : String)
  | rowWidth (index width expected : Nat)
  | unknownColumn (table column : String)
  | returningUnsupported (dialect : Dialect)
  | vectorUnsupported (dialect : Dialect)
  | emptyList
  | other (message : String)
deriving DecidableEq, Repr

inductive ConversionError where
  | mismatch (kind : ValueKind) (target : String)
  | outOfRange (n : Int) (target : Width)
  | invalidTimestamp (text : String)
  | invalidUuid (text : String)
  | invalidJson
deriving DecidableEq, Repr

inductive ConfigError where
  | noScheme (url : String)
  | unsupportedDialect (name : String)
  | integerTooLarge (n : Nat)
  | other (message : String)
deriving DecidableEq, Repr

inductive Error where
  /-- A node cannot be written in the dialect. -/
  | render (cause : RenderError)
  /-- The connection rejected a prepare. -/
  | prepare (sql message : String)
  /-- A value does not fit the type asked for. -/
  | conversion (cause : ConversionError)
  /-- The connection failed to run a statement. -/
  | execution (message : String)
  /-- Some prepared statements failed to close. -/
  | teardown (failures : List String)
  /-- A bind slot has no value in the current call. -/
  | missingArgument (slot : String)
  /-- A column's value could not be written into its field. -/
  | scan (column message : String)
  | connection (message : String)
  | config (cause : ConfigError)
  /-- A configuration file is not TOML, or not a pool configuration. -/
  | toml (message : String)
  | io (message : String)
deriving DecidableEq, Repr

namespace RenderError

def message : RenderError → String
  | .noColumns table => s!"INSERT into {table} has no columns"
  | .duplicateColumn column => s!"duplicate column '{column}'"
  | .noRows table => s!"INSERT into {table} has no rows"
  | .rowWidth index width expected => s!"row {index} has {width} values, expected {expected}"
  | .unknownColumn table column => s!"table {table} has no column '{column}'"
  | .returningUnsupported dialect => s!"{dialect.name} does not support INSERT ... RETURNING"
  | .vectorUnsupported dialect => s!"{dialect.name} does not support vector values"
  | .emptyList => "cannot render an empty list"
  | .other message => message

end RenderError

namespace ConversionError

def message : ConversionError → String
  | .mismatch kind target => s!"cannot convert {kind.name} value into {target}"
  | .outOfRange n target => s!"integer {n} out of range for {target.name}"
  | .invalidTimestamp text => s!"invalid timestamp '{text}': expected a date and a time of day"
  | .invalidUuid text => s!"invalid uuid '{text}': expected 32 hexadecimal digits"
  | .invalidJson => "invalid json: expected one document"

end ConversionError

namespace ConfigError

def message : ConfigError → String
  | .noScheme url => s!"database url has no scheme: {url}"
  | .unsupportedDialect name => s!"unsupported dialect: {name}"
  | .integerTooLarge n => s!"integer too large for a configuration file: {n}"
  | .other message => message

end ConfigError

/-- The text of an error, its kind in front. -/
def Error.message : Error → String
  | .render cause => s!"Render error: {cause.message}"
  | .prepare sql message => s!"Prepare failed for `{sql}`: {message}"
  | .conversion cause => s!"Execution error: {cause.message}"
  | .execution message => s!"Execution error: {message}"
  | .teardown failures =>
    let count := failures.length
    let joined := String.intercalate "; " failures
    s!"Failed to close {count} prepared statement(s): {joined}"
  | .missingArgument slot => s!"Missing argument: {slot}"
  | .scan column message => s!"Scan error on column '{column}': {message}"
  | .connection message => s!"Connection error: {message}"
  | .config cause => s!"Configuration error: {cause.message}"
  | .toml message => s!"Invalid config file: {message}"
  | .io message => s!"IO error: {message}"

end PreparedSql
