import WorkflowCompiler.Collaborators.Fixtures
import WorkflowCompiler.Compile.Report

/-!
# The command line

Two commands: one compiles the graph in a file and writes the flow, the other one tells whether
the flow could run. Files are read through a function and writing is part of the outcome, so that
a command is an ordinary function.
-/
namespace WorkflowCompiler

namespace CommandLine

/-- The files that a compile starts from. -/
structure Inputs where
  graph : String
  fixtures : Option String := none
  options : Option String := none
  deriving DecidableEq, Repr

/-- A command. -/
inductive Command
  | compile (inputs : Inputs) (output : Option String)
  | check (inputs : Inputs)
  deriving DecidableEq, Repr

/-- What a command leaves behind. -/
structure Outcome where
  exitCode : Nat := 0
  stdout : String := ""
  stderr : String := ""
  /-- A file to be written, with its path. -/
  file : Option (String × String) := none
  deriving DecidableEq, Repr

/-- The text of a file, or the reason why it cannot be read. -/
abbrev FileReader := String → Except String String

/-- The reason why a file that is not there cannot be read. -/
def noSuchFile : String := "No such file or directory (os error 2)"

/-- The end of a command that failed. -/
def Outcome.failure (text : String) : Outcome :=
  { exitCode := 1, stderr := "\nError: " ++ text ++ "\n" }

/-- Reads the graph. -/
def readGraph (read : FileReader) (path : String) : Except String EditorGraph := do
  match read path with
  | .error reason => throw ("Failed to read graph file '" ++ path ++ "': " ++ reason)
  | .ok text =>
    (EditorGraph.ofText text).mapError fun e => "Failed to parse graph: " ++ e.message

/-- Reads a file and decodes it. -/
def readDecoded {α : Type} (read : FileReader) (what : String)
    (decode : Document → Except DecodeError α) (path : String) : Except String α :=
  let result := do
    let text ← read path
    (Document.decode decode text).mapError DecodeError.message
  result.mapError fun reason => "Failed to load " ++ what ++ " from '" ++ path ++ "': " ++ reason

/-- Reads a file that may not be given. -/
def readOptional {α : Type} (read : FileReader) (what : String)
    (decode : Document → Except DecodeError α) (default : α) : Option String → Except String α
  | none => .ok default
  | some path => readDecoded read what decode path

/-- Compiles what the files hold. -/
def report (read : FileReader) (inputs : Inputs) : Except String Report := do
  let graph ← readGraph read inputs.graph
  let fixtures ← readOptional read "fixtures" Fixtures.decode {} inputs.fixtures
  let options ← readOptional read "options" Options.decode {} inputs.options
  (graph.compile fixtures.collaborators options).mapError fun e =>
    "Compilation failed: " ++ e.message

/-- The summary of a check. -/
def summary (report : Report) : String :=
  "\n--- Check Summary ---\n" ++
    "Nodes:      " ++ toString report.flow.nodes.length ++ "\n" ++
    "Edges:      " ++ toString report.flow.edges.length ++ "\n" ++
    "Resources:  " ++ toString report.flow.resources.length ++ "\n" ++
    if report.canRun then "  -> Flow can run\n"
    else "  -> Flow cannot run\n" ++
      String.join (report.failures.map fun f =>
        "     " ++ f.nodeId ++ ": " ++ f.error.message ++ "\n")

/-- Runs a command. -/
def run (read : FileReader) : Command → Outcome
  | .compile inputs output =>
    match report read inputs with
    | .error text => .failure text
    | .ok report =>
      match output with
      | some path =>
        { stderr := "Flow written to '" ++ path ++ "'\n", file := some (path, report.flow.save) }
      | none => { stdout := report.flow.save ++ "\n" }
  | .check inputs =>
    match report read inputs with
    | .error text => .failure text
    | .ok report => { exitCode := if report.canRun then 0 else 2, stdout := summary report }

/-- The arguments of a command while they are being read. -/
structure Arguments where
  graph : Option String := none
  fixtures : Option String := none
  options : Option String := none
  output : Option String := none

/-- Reads the arguments of a command. -/
def readArguments (allowOutput : Bool) : Arguments → List String → Option Arguments
  | a, [] => some a
  | a, "-f" :: path :: rest | a, "--fixtures" :: path :: rest =>
      readArguments allowOutput { a with fixtures := some path } rest
  | a, "-o" :: path :: rest | a, "--options" :: path :: rest =>
      readArguments allowOutput { a with options := some path } rest
  | a, "--output" :: path :: rest =>
      if allowOutput then readArguments allowOutput { a with output := some path } rest else none
  | a, arg :: rest =>
      if a.graph.isSome || arg.startsWith "-" then none
      else readArguments allowOutput { a with graph := some arg } rest

/-- The command that a list of arguments asks for. -/
def Command.ofArguments? : List String → Option Command
  | "compile" :: rest => do
      let a ← readArguments true {} rest
      return .compile ⟨← a.graph, a.fixtures, a.options⟩ a.output
  | "check" :: rest => do
      let a ← readArguments false {} rest
      return .check ⟨← a.graph, a.fixtures, a.options⟩
  | _ => none

/-- How to call the program. -/
def usage : String :=
  "Usage: (compile | check) GRAPH [--fixtures FILE] [--options FILE] [--output FILE]\n"

end CommandLine

end WorkflowCompiler
