import WorkflowCompiler.Library.Ancestry
import WorkflowCompiler.Library.Basic
import WorkflowCompiler.Node.Kind
import WorkflowCompiler.Text.Case

/-!
# Nested graphs in the library

A node with a graph of its own either embeds the graph or refers to the row of its app. Inlining
replaces references by the graphs themselves, splitting moves embedded graphs into rows of their
own, and cloning copies a row and all rows that it refers to.
-/
namespace WorkflowCompiler

namespace EditorNode

/-- The key of an embedded graph. -/
def graphKey : String := "config__patent_graph"

/-- The key of the app that a node refers to. -/
def appKey : String := "payload__patent_id"

/-- Whether the node holds or refers to a graph. -/
def holdsGraph (node : EditorNode) : Bool := NodeKind.subgraphNames.contains (Text.lower node.kind)

/-- Whether the node refers to another app as it is published. -/
def isApp (node : EditorNode) : Bool := Text.agreesInAscii node.kind "app"

/-- The app that the graph of a node belongs to. -/
def childApp (node : EditorNode) : String :=
  (((node.data.get? appKey).bind Json.string?).filter fun id => id ≠ "").getD node.id

/-- The graph embedded in a node. -/
def embedded? (node : EditorNode) : Except CompileError (Option EditorGraph) :=
  match (node.data.get? graphKey).filter fun value => !value.isNull with
  | none => .ok none
  | some value =>
      match EditorGraph.decode value with
      | .ok graph => .ok (some graph)
      | .error error => .error (.unreadable ("node '" ++ node.id ++ "': " ++ error.message))

/-- The node with an embedded graph. -/
def embed (node : EditorNode) (graph : EditorGraph) : EditorNode :=
  { node with data := node.data.insert graphKey graph.encode }

/-- The node with a reference to its app instead of an embedded graph. -/
def detach (node : EditorNode) : EditorNode :=
  { node with data := (node.data.eraseFilling graphKey).insert appKey (.string node.childApp) }

end EditorNode

namespace Library

/-- A walk through nested graphs that may save rows. Rows saved before a failure stay saved. -/
structure Walk where
  ancestry : Ancestry
  library : Library

/-- A step of a walk. -/
abbrev WalkM (α : Type) := ExceptT CompileError (StateM Walk) α

/-- Visits an app. -/
def visit (level : Nat) (app : String) : WalkM Unit := fun walk =>
  let (result, ancestry) := walk.ancestry.visit level app
  (result, { walk with ancestry })

/-- Saves a row. -/
def saveRow (workflow : Workflow) : WalkM Unit := fun walk =>
  match walk.library.save workflow with
  | .ok library => (.ok (), { walk with library })
  | .error error => (.error (.service error), walk)

/-- Loads a row, which has to be there. -/
def loadRow (app : String) (version : GraphVersion) : WalkM Workflow := do
  ((← get).library.lookup app version).get "workflow" app

/-- Runs a walk from the outside. -/
def walk {α : Type} (library : Library) (maxDepth : Nat) (step : WalkM α) :
    Except CompileError α × Library :=
  let (result, w) := step ⟨{ maxDepth }, library⟩
  (result, w.library)

/-! ## Inlining -/

/-- A step of a walk that only reads. -/
abbrev ReadM (α : Type) := StateT Ancestry (Except CompileError) α

/-- Visits an app without saving anything. -/
def visitOnly (level : Nat) (app : String) : ReadM Unit := fun a =>
  match a.visit level app with
  | (.ok (), a) => .ok ((), a)
  | (.error error, _) => .error error

/-- The graph of a child: the embedded one, else the stored one. -/
def childGraph (catalog : WorkflowCatalog) (node : EditorNode) (version : GraphVersion) :
    Except CompileError EditorGraph := do
  match ← node.embedded? with
  | some graph => return graph
  | none => return (← (catalog.workflow node.childApp version).get "workflow" node.childApp).graph

/-- The version in which the child of a node is looked up. -/
def childVersion (node : EditorNode) (version : GraphVersion) : GraphVersion :=
  if node.isApp then .publish else version

/-- Embeds in a node the graph that it refers to, once all is inlined in that graph. -/
def inlineNode (catalog : WorkflowCatalog)
    (inlineChild : String → GraphVersion → EditorGraph → ReadM EditorGraph)
    (version : GraphVersion) (level : Nat) (node : EditorNode) : ReadM EditorNode :=
  if node.holdsGraph then do
    visitOnly level node.childApp
    let child ← childGraph catalog node (childVersion node version)
    let nested ← inlineChild node.childApp (childVersion node version) child
    return node.embed nested
  else return node

/-- Embeds in all nodes of a graph what they refer to. -/
def inlineGraph (catalog : WorkflowCatalog)
    (inlineChild : String → GraphVersion → EditorGraph → ReadM EditorGraph)
    (version : GraphVersion) (level : Nat) (graph : EditorGraph) : ReadM EditorGraph := do
  let nodes ← graph.nodes.mapM (inlineNode catalog inlineChild version level)
  return { graph with nodes }

/-- Inlines all that a graph refers to at a level, and what that refers to in turn. So many further
levels may follow. -/
def inlineChildren (catalog : WorkflowCatalog) :
    (room : Nat) → GraphVersion → (level : Nat) → EditorGraph → ReadM EditorGraph
  | 0, version, level, graph =>
      inlineGraph catalog (fun app _ _ => throw (.nestingTooDeep app level)) version level graph
  | room + 1, version, level, graph =>
      inlineGraph catalog
        (fun _ version child => inlineChildren catalog room version (level + 1) child) version level
        graph

/-- The graph of an app with all graphs that it refers to embedded in it. -/
def inline (catalog : WorkflowCatalog) (app : String) (graph : EditorGraph)
    (version : GraphVersion) (maxDepth : Nat) : Except CompileError EditorGraph :=
  let step : ReadM EditorGraph := do
    visitOnly 0 app
    inlineChildren catalog (maxDepth - 1) version 1 graph
  (step { maxDepth }).map Prod.fst

/-! ## Splitting -/

/-- Replaces the graph embedded in a node by a reference, after saving it. Graphs embedded in
references to other apps are dropped. -/
def splitNode (saveChild : String → EditorGraph → WalkM Unit) (node : EditorNode) :
    WalkM EditorNode :=
  if node.holdsGraph then do
    if let some child ← node.embedded? then
      if !node.isApp then saveChild node.childApp child
    return node.detach
  else return node

/-- Saves the graph of an app at a level, after the graphs embedded in it. -/
def splitGraph (version : GraphVersion) (saveChild : String → EditorGraph → WalkM Unit)
    (app : String) (graph : EditorGraph) (level : Nat) : WalkM Unit := do
  visit level app
  let nodes ← graph.nodes.mapM (splitNode saveChild)
  saveRow ⟨app, version, { graph with nodes }⟩

/-- Saves the graph of an app at a level, and all graphs embedded in it at any depth. So many
further levels may follow. -/
def splitLevel (version : GraphVersion) :
    (room : Nat) → (app : String) → EditorGraph → (level : Nat) → WalkM Unit
  | 0, app, graph, level =>
      splitGraph version (fun child _ => throw (.nestingTooDeep child level)) app graph level
  | room + 1, app, graph, level =>
      splitGraph version (fun child inner => splitLevel version room child inner (level + 1)) app
        graph level

/-- Saves a graph as the row of an app, moving every embedded graph into a row of its own. -/
def split (library : Library) (app : String) (version : GraphVersion) (graph : EditorGraph)
    (maxDepth : Nat) : Except CompileError Unit × Library :=
  library.walk maxDepth (splitLevel version maxDepth app graph 0)

/-! ## Cloning -/

/-- Copies the row that a node refers to, unless its app has been visited at the level already. -/
def cloneNode (copyChild : String → WalkM Unit) (level : Nat) (node : EditorNode) :
    WalkM Unit := do
  if node.holdsGraph && !node.isApp then
    if (← node.embedded?).isNone then
      if !(← get).ancestry.visited level node.childApp then
        copyChild node.childApp

/-- Copies the row of an app at a level, after the rows that its nodes refer to. -/
def cloneRow (source target : GraphVersion) (copyChild : String → WalkM Unit) (app : String)
    (level : Nat) : WalkM Unit := do
  visit level app
  let workflow ← loadRow app source
  workflow.graph.nodes.forM (cloneNode copyChild (level + 1))
  saveRow ⟨app, target, workflow.graph⟩

/-- Copies the row of an app at a level, and all rows that it refers to. So many further levels may
follow. -/
def cloneLevel (source target : GraphVersion) :
    (room : Nat) → (app : String) → (level : Nat) → WalkM Unit
  | 0, app, level =>
      cloneRow source target (fun child => throw (.nestingTooDeep child level)) app level
  | room + 1, app, level =>
      cloneRow source target (fun child => cloneLevel source target room child (level + 1)) app
        level

/-- Copies the row of an app and all rows that it refers to from one version to another. -/
def clone (library : Library) (app : String) (source target : GraphVersion) (maxDepth : Nat) :
    Except CompileError Unit × Library :=
  library.walk maxDepth (cloneLevel source target maxDepth app 0)

end Library

end WorkflowCompiler
