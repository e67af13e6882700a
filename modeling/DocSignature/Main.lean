import DocSignature.Json.Writer
import DocSignature.Launch

/-!
# The command line

The program takes no arguments. It reads the settings from the variables of its process and writes
how the server is to be started, as one line of JSON. It does not look for a `.env` file. Fields
that cannot be read go to the error output, each on a line of its own.
-/

namespace DocSignature

/-- The variables of the process that hold settings. -/
def processEnvironment : IO Environment := do
  let names := Settings.fieldNames.flatMap fun field =>
    [Settings.common ++ field, (Settings.common ++ field).map Char.toUpper]
  let found ← names.mapM fun name => return (← IO.getEnv name).map (name, ·)
  return found.filterMap id

end DocSignature

open DocSignature in
/-- Writes the launch that the environment asks for. -/
def main : IO UInt32 := do
  match Launch.ofEnvironment (Settings.read []) (← processEnvironment) with
  | .ok launch =>
    IO.println launch.toJson.plain
    return 0
  | .error faults =>
    for (field, fault) in faults do
      IO.eprintln (field ++ ": " ++ fault.word)
    return 1
