import WorkflowCompiler.Diagnostics

/-!
# Ancestry

The chain of apps from the outermost one to the one being visited, which may not hold an app
twice, and all visits so far.
-/
namespace WorkflowCompiler

/-- The chain of apps being visited. -/
structure Ancestry where
  /-- The apps of the chain, the outermost first. -/
  path : List String := []
  /-- The apps visited so far, with their levels. -/
  visits : List (Nat × String) := []
  maxDepth : Nat
  deriving DecidableEq, Repr

namespace Ancestry

/-- Cuts the chain off at a level and adds an app, which must not be in the chain already. The
chain stays cut off when this fails. -/
def visit (a : Ancestry) (level : Nat) (app : String) : Except CompileError Unit × Ancestry :=
  let a := { a with path := a.path.take level }
  if a.path.contains app then (.error (.nestedCycle app level), a)
  else if a.maxDepth ≤ level then (.error (.nestingTooDeep app a.maxDepth), a)
  else (.ok (), { a with path := a.path ++ [app], visits := (level, app) :: a.visits })

/-- Whether an app has been visited at a level. -/
def visited (a : Ancestry) (level : Nat) (app : String) : Bool := a.visits.contains (level, app)

end Ancestry

end WorkflowCompiler
