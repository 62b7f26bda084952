import Exonym.CommandLine

/-!
# The program

Reads the files that the arguments name, and writes what the command has to say.
-/

namespace Exonym

/-- The text of a file that can be read. -/
def readFile? (path : String) : IO (Option String) := do
  try
    return some (← IO.FS.readFile path)
  catch _ =>
    return none

end Exonym

open Exonym in
def main (arguments : List String) : IO UInt32 := do
  match Invocation.parse arguments with
  | none =>
    (← IO.getStderr).putStrLn ("\n".intercalate Invocation.usage)
    return 2
  | some invocation =>
    let texts ← invocation.paths.mapM fun path => return (path, ← readFile? path)
    let outcome := invocation.perform fun path => (texts.find? (·.1 = path)).bind (·.2)
    (← IO.getStdout).putStr outcome.text
    if let some failure := outcome.failure then
      (← IO.getStderr).putStrLn ("Error: " ++ failure.message)
    return outcome.exitCode
