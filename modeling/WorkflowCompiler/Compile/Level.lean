import WorkflowCompiler.Compile.Block
import WorkflowCompiler.Compile.Flattening
import WorkflowCompiler.Node.Nested

/-!
# Compiling a level

One level of a graph: its resources and nodes are built and registered, its connections scanned,
its blocks folded, and the rest is read off in topological order. A node that cannot be built for
a reason of its own is replaced by a stand-in.
-/
namespace WorkflowCompiler

namespace Level

/-- Puts a stand-in in the place of a node that cannot be built for a reason of its own. -/
def orPlaceholder (raw : EditorNode) (step : Build Node) : Build Node := fun s =>
  match step s with
  | (.ok node, s) => (.ok node, s)
  | (.error error, s) =>
    if error.isRecoverable then
      (.ok (Node.placeholder raw error.message), s.recordFailure raw.id error)
    else (.error error, s)

/-- Registers a built node. -/
def register (node : Node) : Build Unit := modify fun s => s.register node

/-- Fails when a node names a resource that is not registered. -/
def checked (node : Node) : Build Node := do
  Build.ofSession fun s => s.checkResources node
  return node

/-- Builds a resource and registers it at once, so that nested graphs find it. -/
def buildResource (nested : NestedCompiler) (raw : EditorNode) : Build Node := do
  let resource ← orPlaceholder raw (Node.build nested raw)
  register resource
  return resource

/-- Checks a resource once all resources are registered; they may name each other in any order. -/
def checkResource (raw : EditorNode) (resource : Node) : Build Node := fun s =>
  match s.checkResources resource with
  | .ok () => (.ok resource, s)
  | .error error =>
    (do
      let standIn ← orPlaceholder raw (throw error)
      register standIn
      return standIn : Build Node) s

/-- Builds a node and checks its resources. -/
def buildNode (nested : NestedCompiler) (raw : EditorNode) : Build Node :=
  orPlaceholder raw (do checked (← Node.build nested raw))

/-- Builds all resources and nodes of a level. In the end they are registered once more, so that
they come before entries of nested levels with the same ids. -/
def buildAll (nested : NestedCompiler) (graph : EditorGraph) : Build Unit := do
  let resources ← graph.resources.mapM (buildResource nested)
  let resources ← (graph.resources.zip resources).mapM fun (raw, r) => checkResource raw r
  let nodes ← graph.nodes.mapM (buildNode nested)
  resources.forM register
  nodes.forM register

/-- The first end of a connection that is no node of the level. -/
def checkEnds (ids : List String) (edge : EditorEdge) : Except CompileError Unit :=
  if !ids.contains edge.source then .error (.nodeNotFound edge.source edge.target)
  else if !ids.contains edge.target then .error (.nodeNotFound edge.target edge.source)
  else .ok ()

/-- The source of a connection with the connection recorded, and what is known of the link. The
label of a connection formats its data, except where it leaves a fork and labels the case. -/
def leave (source : Node) (edge : EditorEdge) : Except CompileError (Node × LinkData) := do
  let formatter :=
    edge.formatter.orElse fun _ => if source.isFork then none else edge.label
  match source.body.branching? with
  | none => return (source, ⟨"", formatter, edge.targetHandle⟩)
  | some b =>
    let b ← b.connect source.id edge
    let key := (b.keyOf? (Branching.portOf edge)).getD ""
    return ({ source with body := source.body.withBranching b },
      ⟨key, formatter, edge.targetHandle⟩)

/-- Scans one connection: checks its ends, records it at both nodes and links them. -/
def connect (ids : List String) (w : Wiring) (edge : EditorEdge) : Build Wiring := do
  Build.ofSession fun _ => checkEnds ids edge
  let data ←
    match (← get).node? edge.source with
    | none => pure { targetHandle := edge.targetHandle }
    | some source =>
      let (source, data) ← Build.ofSession fun _ => leave source edge
      modify fun s => s.modifyNode edge.source fun _ => source
      pure data
  modify fun s => s.modifyNode edge.target fun node => node.bindInput edge.targetHandle edge.source
  return w.addLink edge.source edge.target data

/-- The wiring of a level after its connections have been scanned in order. -/
def connectAll (graph : EditorGraph) : Build Wiring := do
  let ids := graph.nodes.map EditorNode.id
  graph.edges.foldlM (connect ids) (ids.foldl Wiring.addNode {})

/-- Folds blocks in a wiring, with their forks in the registry of the session. -/
def foldBlocks (blocks : List Block) (w : Wiring) : Build Wiring := fun s =>
  let (result, f) := Block.foldAll blocks ⟨s.registry, w⟩
  (result.map fun _ => f.wiring, { s with registry := f.registry })

/-- Compiles a level whose nested graphs are compiled by `nested`. -/
def compile (nested : NestedCompiler) (graph : EditorGraph) : Build Flow := do
  buildAll nested graph
  let w ← connectAll graph
  let order ← w.topologicalOrder
  let blocks ← Build.ofSession fun s => Block.matchAll s.registry order
  let w ← foldBlocks blocks w
  Build.ofSession fun s => Flattening.flow s w order (graph.resources.map EditorNode.id)

/-- Compiles nested graphs while at most that many more may be nested. Without room a session lets
no graph be entered, so that nothing is left to compile. -/
def nestedCompiler : Nat → NestedCompiler
  | 0 => fun _ => throw (.nestingTooDeep "" 0)
  | room + 1 => fun graph => compile (nestedCompiler room) graph

end Level

namespace Session

/-- Builds a node in a session. -/
def build (raw : EditorNode) : Build Node := fun s =>
  Node.build (Level.nestedCompiler s.room) raw s

/-- Compiles a graph in a session. -/
def compile (graph : EditorGraph) : Build Flow := fun s =>
  Level.compile (Level.nestedCompiler s.room) graph s

end Session

end WorkflowCompiler
