import SecureLayout.Config.Startup

/-!
The command line: says whether the relay could start from its configuration, and if not, why.
-/

open SecureLayout

/-- The text of a file, if it can be read as text. -/
def textOfFile (path : String) : IO (Option String) := do
  try
    return some (← IO.FS.readFile path)
  catch _ =>
    return none

def main (args : List String) : IO UInt32 := do
  let named ← IO.getEnv Config.fileVariable
  match Config.startup (← textOfFile (Config.configFile args named)) with
  | .ok _ => return 0
  | .error e =>
    IO.eprintln (Config.refusalText e)
    return 1
