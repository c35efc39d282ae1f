import WorkflowCompiler.Diagnostics
import WorkflowCompiler.Node.CaseKey

/-!
# Branching

What every fork keeps track of: its declared cases, the connection that leaves each of their
ports, and the nodes folded into each branch.
-/
namespace WorkflowCompiler

/-- A case of a fork: the port that it leaves by and the key that the engine looks for. -/
structure ForkCase where
  port : String
  key : String
  deriving DecidableEq, Repr

/-- The cases of a fork and what is known about them. -/
structure Branching where
  cases : List ForkCase
  /-- The connection that leaves each port, once it is known. -/
  leaving : Entries (Option EditorEdge)
  /-- The ids of the nodes folded into the branch of each key. -/
  branches : Entries (List String)
  deriving DecidableEq

namespace Branching

/-- A fork with these cases, unconnected and with empty branches. -/
def ofCases (cases : List ForkCase) : Branching where
  cases
  leaving := Entries.ofPairs (cases.map fun c => (c.port, none))
  branches := Entries.ofPairs (cases.map fun c => (c.key, []))

/-- The cases with a default added unless there is one. -/
def withDefault (cases : List ForkCase) : List ForkCase :=
  if cases.any fun c => c.key = CaseKey.fallback then cases
  else cases ++ [⟨CaseKey.fallback, CaseKey.fallback⟩]

/-- The key of the first case that leaves by a port. -/
def keyOf? (b : Branching) (port : String) : Option String :=
  (b.cases.find? fun c => c.port = port).map ForkCase.key

/-- The port that a connection leaves by. -/
def portOf (edge : EditorEdge) : String := edge.sourceHandle.getD ""

/-- Records the connection that leaves a port of the fork `node`. Each declared port is left by
one connection at most. -/
def connect (b : Branching) (node : String) (edge : EditorEdge) : Except CompileError Branching :=
  let port := portOf edge
  match b.leaving.get? port with
  | none =>
      .error (.invalidConnection node port "output handle does not match any declared case")
  | some (some _) => .error (.duplicateCaseEdge node port)
  | some none => .ok { b with leaving := b.leaving.insert port (some edge) }

/-- The ports that no connection leaves by. -/
def unmatched (b : Branching) : List String :=
  (b.leaving.filter fun e => e.2.isNone).map Prod.fst

/-- Hands the bodies to the cases in turn; a body that was handed out is used up. -/
def assignTo : List ForkCase → Entries (List String) → Entries (List String) →
    Entries (List String)
  | [], _, branches => branches
  | c :: cs, bodies, branches =>
      assignTo cs (bodies.erase c.key) (branches.insert c.key ((bodies.get? c.key).getD []))

/-- Stores the bodies of the cases. Every declared case gets one, empty when there is none under
its key; bodies without a case are dropped. -/
def assign (b : Branching) (bodies : Entries (List String)) : Branching :=
  { b with branches := assignTo b.cases bodies b.branches }

/-- The nodes in the branch of a key. -/
def branch (b : Branching) (key : String) : List String := (b.branches.get? key).getD []

/-- All nodes in any branch. -/
def members (b : Branching) : List String := b.branches.values.flatten

/-- The keys in the order in which they are emitted, the default last. -/
def emittedKeys (b : Branching) : List String :=
  (b.branches.keys.filter fun k => k ≠ CaseKey.fallback) ++
    b.branches.keys.filter fun k => k = CaseKey.fallback

end Branching

end WorkflowCompiler
