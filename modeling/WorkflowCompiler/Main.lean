import WorkflowCompiler.CommandLine

/-!
# The program

Reads the files that a command names, runs the command and writes what it leaves behind.
-/
namespace WorkflowCompiler

namespace CommandLine

/-- Reads a file that may be missing. -/
def readInput (path : String) : IO (Except String String) := do
  try
    return .ok (← IO.FS.readFile path)
  catch
    | .noFileOrDirectory .. => return .error noSuchFile
    | error => return .error (toString error)

/-- The files that a command reads. -/
def Command.paths : Command → List String
  | .compile inputs _ | .check inputs =>
      inputs.graph :: (inputs.fixtures.toList ++ inputs.options.toList)

end CommandLine

end WorkflowCompiler

open WorkflowCompiler

/-- Runs the program and returns its exit code. -/
def main (args : List String) : IO UInt32 := do
  match CommandLine.Command.ofArguments? args with
  | none =>
    IO.eprint CommandLine.usage
    return 2
  | some command =>
    let files ← command.paths.mapM fun path =>
      return (path, ← CommandLine.readInput path)
    let read : CommandLine.FileReader := fun path =>
      (Entries.get? files path).getD (.error CommandLine.noSuchFile)
    let outcome := CommandLine.run read command
    IO.print outcome.stdout
    match outcome.file with
    | none =>
      IO.eprint outcome.stderr
      return outcome.exitCode.toUInt32
    | some (path, text) =>
      try
        IO.FS.writeFile path text
        IO.eprint outcome.stderr
        return outcome.exitCode.toUInt32
      catch error =>
        let reason := "Could not access '" ++ path ++ "': " ++ toString error
        IO.eprint (CommandLine.Outcome.failure reason).stderr
        return 1
