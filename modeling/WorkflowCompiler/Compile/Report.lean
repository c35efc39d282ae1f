import WorkflowCompiler.Compile.Level
import WorkflowCompiler.Flow.RunCheck

/-!
# Compiling graphs

A whole compile in a session of its own. The report holds the flow and the nodes that were
replaced by stand-ins.
-/
namespace WorkflowCompiler

/-- The outcome of a compile. -/
structure Report where
  flow : Flow
  failures : List NodeFailure := []
  deriving DecidableEq

/-- Whether the flow can run: nothing failed, and no stand-in is in it. -/
def Report.canRun (report : Report) : Bool := report.failures.isEmpty && report.flow.canRun

namespace EditorGraph

/-- Compiles a graph with the given collaborators and options. -/
def compile (graph : EditorGraph) (collaborators : Collaborators) (options : Options) :
    Except CompileError Report :=
  match Session.compile graph { collaborators, options } with
  | (.ok flow, s) => .ok ⟨flow, s.failures⟩
  | (.error error, _) => .error error

end EditorGraph

/-- Compiles a stored workflow. -/
def Workflow.compile (workflow : Workflow) (collaborators : Collaborators) (options : Options) :
    Except CompileError Report :=
  workflow.graph.compile collaborators options

end WorkflowCompiler
