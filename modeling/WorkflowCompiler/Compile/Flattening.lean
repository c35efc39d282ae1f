import WorkflowCompiler.Node.Emission
import WorkflowCompiler.Wiring.Paths

/-!
# Flattening

The flow of a level, read off its folded wiring in topological order: the nodes, before each node
that follows another the connections into it, and the resources.
-/
namespace WorkflowCompiler

namespace Flattening

/-- The id of the entry in flows. -/
def entryId : String := "__start__"

/-- The id of the exit in flows. -/
def exitId : String := "__end__"

/-- The kinds of resources that are emitted even when no node uses them. -/
def alwaysEmitted : List String := ["server", "web"]

/-- The id under which connections of a flow know a node. -/
def emittedId (node : Node) : String :=
  if node.isStart then entryId else if node.isEnd then exitId else node.id

/-- A registered node that something refers to. -/
def lookup (s : Session) (id requiredBy : String) : Except CompileError Node :=
  match s.node? id with
  | some node => .ok node
  | none => .error (.nodeNotFound id requiredBy)

/-- The links into a node: those on declared ports in order of declaration, then the others. -/
def sortedByPort (node : Node) (links : List Link) : List Link :=
  let rank (l : Link) : Nat := (node.portIndex? l.data.targetHandle).getD node.inputPorts.length
  links.mergeSort fun a b => rank a ≤ rank b

/-- The connection of a flow that a link into a node becomes. -/
def flowEdge (s : Session) (id : String) (node : Node) (l : Link) :
    Except CompileError FlowEdge := do
  let source ← lookup s l.source id
  return ⟨emittedId source, emittedId node, l.data.formatter⟩

/-- Emits the nodes and the connections into them in the given order. -/
def emitNodes (s : Session) (w : Wiring) :
    List String → Except CompileError (List JsonObject × List FlowEdge)
  | [] => .ok ([], [])
  | id :: ids => do
      let node ← lookup s id id
      let here ← if node.isStructural then pure [] else (s.emit node).map fun fields => [fields]
      let links := sortedByPort node ((w.incoming id).map PlacedLink.link)
      let edges ← links.mapM (flowEdge s id node)
      let (nodes, moreEdges) ← emitNodes s w ids
      return (here ++ nodes, edges ++ moreEdges)

/-- Ids already emitted and the resources emitted for them. -/
structure Resources where
  seen : List String := []
  emitted : List JsonObject := []

/-- Emits a declared resource if its kind is always emitted. -/
def emitDeclared (s : Session) (r : Resources) (id : String) : Except CompileError Resources := do
  let resource ← lookup s id id
  if alwaysEmitted.contains resource.lowerKind && !r.seen.contains id then
    return ⟨id :: r.seen, r.emitted ++ [← s.emit resource]⟩
  else return r

/-- Adds a resource unless it has been emitted. -/
def addResource (r : Resources) (entry : String × JsonObject) : Resources :=
  if r.seen.contains entry.1 then r else ⟨entry.1 :: r.seen, r.emitted ++ [entry.2]⟩

/-- Emits the resources that a node depends on. -/
def emitUsed (s : Session) (r : Resources) (id : String) : Except CompileError Resources := do
  let node ← lookup s id id
  return (← s.resourcesOf node).foldl addResource r

/-- The flow of a level: `order` is a topological order from before folding, of which the nodes
that are left in `w` count, and `declared` are the ids of the declared resources. -/
def flow (s : Session) (w : Wiring) (order declared : List String) : Except CompileError Flow := do
  let left := order.filter w.contains
  let (nodes, edges) ← emitNodes s w left
  let r ← declared.foldlM (emitDeclared s) {}
  let r ← left.foldlM (emitUsed s) r
  return ⟨nodes, edges, r.emitted⟩

end Flattening

end WorkflowCompiler
