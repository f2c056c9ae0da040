import PreparedSql.CommandLine.Command

/-!
# The program

Reads the surroundings, prints the outcome of the command line and ends with its exit code.
-/

namespace PreparedSql

/-- Where the configuration file belongs: below `XDG_CONFIG_HOME`, or else below `HOME`. -/
def configPath? : IO (Option String) := do
  let below (dir : String) : String := dir ++ "/sqlcache/config.toml"
  match ← IO.getEnv "XDG_CONFIG_HOME" with
  | some dir => if dir.startsWith "/" then return some (below dir)
  | none => pure ()
  return (← IO.getEnv "HOME").map fun home => below (home ++ "/.config")

def readSurroundings : IO Surroundings := do
  let configPath ← configPath?
  let configFile ← match configPath with
    | none => pure none
    | some path =>
      try
        let bytes ← IO.FS.readBinFile path
        pure (some bytes)
      catch _ => pure none
  let databaseUrl ← IO.getEnv "SQLCACHE_DATABASE_URL"
  return { configPath, configFile, databaseUrl }

end PreparedSql

def main (arguments : List String) : IO UInt32 := do
  let outcome := PreparedSql.answer .unreachable (← PreparedSql.readSurroundings) arguments
  IO.print outcome.stdout
  IO.eprint outcome.stderr
  return UInt32.ofNat outcome.exit
