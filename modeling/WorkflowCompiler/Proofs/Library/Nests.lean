import WorkflowCompiler.Library.Nesting
import WorkflowCompiler.Proofs.Editor.Encoding

/-!
# Nests of graphs

Which graphs belong to which apps inside a graph, how deep they lie, and how a graph looks once the
graphs embedded in it have been replaced by references to their apps.
-/
namespace WorkflowCompiler

namespace EditorNode

/-- Whether a graph is embedded in the node as its own, and not as the graph of another app. -/
structure OwnGraph (node : EditorNode) (child : EditorGraph) : Prop where
  holdsGraph : node.holdsGraph = true
  isApp : node.isApp = false
  embedded : node.embedded? = .ok (some child)

theorem OwnGraph.unique {node : EditorNode} {child other : EditorGraph} (h : node.OwnGraph child)
    (h' : node.OwnGraph other) : child = other :=
  Option.some.inj (Except.ok.inj (h.embedded.symm.trans h'.embedded))

/-- What is embedded is read. -/
theorem legible_of_embedded {node : EditorNode} {child : EditorGraph}
    (h : node.embedded? = .ok (some child)) : child.Legible := by
  unfold embedded? at h
  split at h
  · cases h
  · split at h
    · next hread =>
      obtain rfl := Option.some.inj (Except.ok.inj h)
      exact EditorGraph.legible_of_decode hread
    · cases h

/-- Whether `saved` is the node with a reference to its app instead of a graph, but for the order of
the data. -/
structure Detached (node saved : EditorNode) : Prop where
  id : saved.id = node.id
  extra : saved.extra = node.extra
  keys : (Entries.keys saved.data).Nodup
  graph : saved.data.get? graphKey = none
  app : saved.data.get? appKey = some (.string node.childApp)
  others : ∀ key, key ≠ graphKey → key ≠ appKey → saved.data.get? key = node.data.get? key

theorem detached_detach {node : EditorNode} (keys : (Entries.keys node.data).Nodup) :
    node.Detached node.detach where
  id := rfl
  extra := rfl
  keys := Entries.nodup_keys_insert (Entries.nodup_keys_eraseFilling keys graphKey) _ _
  graph := by
    rw [detach, Entries.get?_insert_of_ne _ _ (by decide), Entries.get?_eraseFilling keys, if_pos rfl]
  app := Entries.get?_insert_self _ _ _
  others key hgraph happ := by
    rw [detach, Entries.get?_insert_of_ne _ _ happ, Entries.get?_eraseFilling keys, if_neg hgraph]

namespace Detached

variable {node saved : EditorNode}

theorem kind (h : node.Detached saved) : saved.kind = node.kind := by
  rw [EditorNode.kind, EditorNode.kind, h.others _ (by decide) (by decide),
    h.others _ (by decide) (by decide)]

theorem holdsGraph (h : node.Detached saved) : saved.holdsGraph = node.holdsGraph := by
  rw [EditorNode.holdsGraph, h.kind, EditorNode.holdsGraph]

theorem isApp (h : node.Detached saved) : saved.isApp = node.isApp := by
  rw [EditorNode.isApp, h.kind, EditorNode.isApp]

theorem childApp (h : node.Detached saved) : saved.childApp = node.childApp := by
  have named : node.childApp = "" → node.id = "" := by
    unfold EditorNode.childApp
    cases hid : ((node.data.get? appKey).bind Json.string?).filter fun id => id ≠ "" with
    | none => exact fun empty => empty
    | some app =>
      intro empty
      exact absurd empty (of_decide_eq_true (Option.filter_eq_some_iff.mp hid).2)
  rw [EditorNode.childApp, h.app, h.id]
  by_cases empty : node.childApp = ""
  · rw [empty, named empty]
    rfl
  · show (Option.filter _ (some node.childApp)).getD node.id = _
    rw [Option.filter_some, if_pos (decide_eq_true empty)]
    rfl

theorem embedded? (h : node.Detached saved) : saved.embedded? = .ok none := by
  rw [EditorNode.embedded?, h.graph]
  rfl

end Detached

/-- How a node is saved: a reference to its app takes the place of a graph. -/
inductive SavedAs (node : EditorNode) : EditorNode → Prop
  | plain (h : node.holdsGraph = false) : SavedAs node node
  | detached {saved : EditorNode} (h : node.holdsGraph = true) (detached : node.Detached saved) :
      SavedAs node saved

end EditorNode

namespace EditorGraph

/-- Whether no key occurs twice in the data of a node. -/
def Keyed (graph : EditorGraph) : Prop := ∀ node ∈ graph.nodes, (Entries.keys node.data).Nodup

theorem Legible.keyed {graph : EditorGraph} (h : graph.Legible) : graph.Keyed := fun node hnode =>
  (h.nodes node hnode).data

theorem keyed_of_own {node : EditorNode} {child : EditorGraph} (h : node.OwnGraph child) :
    child.Keyed := (EditorNode.legible_of_embedded h.embedded).keyed

/-- How a graph is saved. -/
structure SavedAs (graph saved : EditorGraph) : Prop where
  nodes : List.Forall₂ EditorNode.SavedAs graph.nodes saved.nodes
  edges : saved.edges = graph.edges
  resources : saved.resources = graph.resources

/-- Whether all nodes that hold a graph refer to their apps and have none embedded. -/
def Refers (graph : EditorGraph) : Prop :=
  ∀ node ∈ graph.nodes, node.holdsGraph = true →
    node.data.get? EditorNode.graphKey = none ∧
    node.data.get? EditorNode.appKey = some (.string node.childApp)

theorem SavedAs.refers {graph saved : EditorGraph} (h : graph.SavedAs saved) : saved.Refers := by
  intro node hnode holds
  obtain ⟨original, -, savedAs⟩ := exists_of_mem_right h.nodes hnode
  cases savedAs with
  | plain plain => cases holds.symm.trans plain
  | detached _ detached => exact ⟨detached.graph, detached.childApp ▸ detached.app⟩

/-- The graphs that belong to apps inside a graph: those embedded in its nodes, and those embedded in
them in turn. -/
inductive Owns : EditorGraph → String → EditorGraph → Prop
  | here {graph child : EditorGraph} {node : EditorNode} (mem : node ∈ graph.nodes)
      (own : node.OwnGraph child) : Owns graph node.childApp child
  | inside {graph child inner : EditorGraph} {node : EditorNode} {app : String}
      (mem : node ∈ graph.nodes) (own : node.OwnGraph child) (owns : Owns child app inner) :
      Owns graph app inner

/-- Whether the graphs that belong to a graph lie in less than so many levels. -/
inductive Nests : Nat → EditorGraph → Prop
  | intro {room : Nat} {graph : EditorGraph}
      (children : ∀ node ∈ graph.nodes, ∀ child, node.OwnGraph child → Nests room child) :
      Nests (room + 1) graph

end EditorGraph

end WorkflowCompiler
