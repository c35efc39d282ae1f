import WorkflowCompiler.Proofs.Library.Resolving

/-!
# Inlined graphs are self-contained

Inlining changes a graph only in what is embedded in the nodes that hold a graph. What comes of it
refers to nothing any more: whatever library is asked, and for whatever version, inlining once more
finds every graph in its place and changes nothing.
-/
namespace WorkflowCompiler

namespace EditorNode

/-- Whether `made` is the node, but for the graph that is embedded in it if it holds one. Even the
order of the data is the same. -/
inductive Filled (node : EditorNode) : EditorNode → Prop
  | plain (h : node.holdsGraph = false) : Filled node node
  | filled {made : EditorNode} (h : node.holdsGraph = true) (id : made.id = node.id)
      (extra : made.extra = node.extra)
      (data : made.data.erase graphKey = node.data.erase graphKey) : Filled node made

variable (node : EditorNode) (graph : EditorGraph)

@[simp] theorem holdsGraph_embed : (node.embed graph).holdsGraph = node.holdsGraph := by
  rw [holdsGraph, ← (node.sameButGraph_embed graph).kind, holdsGraph]

@[simp] theorem childApp_embed : (node.embed graph).childApp = node.childApp := by
  rw [childApp, ← (node.sameButGraph_embed graph).data appKey (by decide), childApp]
  rfl

/-- Embedding the same graph once more changes nothing. -/
@[simp] theorem embed_embed : (node.embed graph).embed graph = node.embed graph := by
  simp [embed]

theorem embedded?_embed {graph : EditorGraph} (legible : graph.Legible) :
    (node.embed graph).embedded? = .ok (some graph) := by
  have held : ((node.embed graph).data.get? graphKey).filter (fun value => !value.isNull) =
      some graph.encode := by
    rw [embed, Entries.get?_insert_self]
    rfl
  rw [embedded?, held]
  dsimp only
  rw [EditorGraph.decode_encode legible]

theorem filled_embed {node : EditorNode} (holds : node.holdsGraph = true) (graph : EditorGraph) :
    node.Filled (node.embed graph) :=
  .filled holds rfl rfl (Entries.erase_insert ..)

end EditorNode

/-- Whether `made` is the graph, but for the graphs that are embedded in its nodes. -/
structure EditorGraph.Filled (graph made : EditorGraph) : Prop where
  nodes : List.Forall₂ EditorNode.Filled graph.nodes made.nodes
  edges : made.edges = graph.edges
  resources : made.resources = graph.resources

namespace Library

variable {catalog other : WorkflowCatalog} {version : GraphVersion} {a b : Ancestry}
  {graph made : EditorGraph} {room level : Nat}

/-- Inlining fills the nodes that hold a graph and does nothing else. -/
theorem filled_of_inlineChildren
    (run : inlineChildren catalog room version level graph a = .ok (made, b)) :
    graph.Filled made := by
  obtain ⟨nodes, rfl, inlined⟩ := inlineChildren_eq_ok run
  refine ⟨inlined.imp ?_, rfl, rfl⟩
  rintro node _ ⟨_, _, run⟩
  rcases inlineNode_eq_ok run with ⟨plain, rfl⟩ | ⟨holds, _, nested, _, -, -, -, rfl⟩
  · exact .plain plain
  · exact EditorNode.filled_embed holds nested

/-- What a second walk leaves as it is, one item after the other, it leaves as a whole. -/
theorem run_mapM_again {α : Type} {f g : α → ReadM α} {xs ys : List α} {a c : Ancestry}
    (each : ∀ x y a b, f x a = .ok (y, b) → g y a = .ok (y, b))
    (run : xs.mapM f a = .ok (ys, c)) : ys.mapM g a = .ok (ys, c) := by
  induction xs generalizing ys a with
  | nil =>
    obtain ⟨rfl, rfl⟩ := Prod.mk.inj (Except.ok.inj run)
    rfl
  | cons x xs ih =>
    rw [List.mapM_cons] at run
    obtain ⟨y, b, first, run⟩ := run_read_bind_eq_ok.mp run
    obtain ⟨rest, d, others, run⟩ := run_read_bind_eq_ok.mp run
    obtain ⟨rfl, rfl⟩ := Prod.mk.inj (Except.ok.inj run)
    rw [List.mapM_cons, run_read_bind (each x y a b first), run_read_bind (ih others)]
    rfl

section Again

variable (rows : LegibleRows catalog)
  (inner : ∀ app version version' child nested b c,
    inlineInner catalog room level app version child b = .ok (nested, c) →
    inlineInner other room level app version' nested b = .ok (nested, c))

include rows inner

/-- A node in which something has been inlined stays as it is, if the graph embedded in it does. -/
theorem inlineNode_again (version' : GraphVersion) {node made : EditorNode}
    (run : inlineNode catalog (inlineInner catalog room level) version level node a =
      .ok (made, b)) :
    inlineNode other (inlineInner other room level) version' level made a = .ok (made, b) := by
  rcases inlineNode_eq_ok run with ⟨plain, rfl⟩ |
    ⟨holds, child, nested, c, visited, found, inlined, rfl⟩
  · rw [inlineNode_plain plain] at run ⊢
    exact run
  · obtain ⟨_, _, inside⟩ := inlineInner_eq_ok inlined
    have legible := legible_of_inlineChildren inside (legible_of_childGraph rows found)
    have embedded : childGraph other (node.embed nested)
        (childVersion (node.embed nested) version') = .ok nested :=
      childGraph_of_embedded (node.embedded?_embed legible)
    have stays := inner _ _ (childVersion (node.embed nested) version') _ _ _ _ inlined
    rw [← node.childApp_embed nested] at visited stays
    have run := run_inlineNode ((node.holdsGraph_embed nested).trans holds) visited embedded stays
    rwa [EditorNode.embed_embed] at run

theorem inlineNodes_again (version' : GraphVersion)
    (run : inlineChildren catalog room version level graph a = .ok (made, b)) :
    inlineChildren other room version' level made a = .ok (made, b) := by
  have each : ∀ node made a b,
      inlineNode catalog (inlineInner catalog room level) version level node a = .ok (made, b) →
      inlineNode other (inlineInner other room level) version' level made a = .ok (made, b) :=
    fun _ _ _ _ run => inlineNode_again rows inner version' run
  rw [inlineChildren_eq, inlineGraph] at run
  obtain ⟨nodes, c, inlined, run⟩ := run_read_bind_eq_ok.mp run
  obtain ⟨rfl, rfl⟩ := Prod.mk.inj (Except.ok.inj run)
  have again := run_mapM_again each inlined
  rw [inlineChildren_eq, inlineGraph]
  exact run_read_bind again

end Again

/-- A graph in which everything has been inlined stays as it is, with any library and in any
version. -/
theorem inlineChildren_again (rows : LegibleRows catalog) (version' : GraphVersion)
    (run : inlineChildren catalog room version level graph a = .ok (made, b)) :
    inlineChildren other room version' level made a = .ok (made, b) := by
  induction room generalizing version version' level graph made a b with
  | zero =>
    refine inlineNodes_again rows ?_ version' run
    intro app version version' child nested b c impossible
    cases impossible
  | succ room ih =>
    refine inlineNodes_again rows ?_ version' run
    intro app version version' child nested b c inside
    exact ih version' inside

/-- What comes of inlining is the graph with its nodes filled, and is self-contained. -/
theorem inline_self_contained (rows : LegibleRows catalog) {app : String} {maxDepth : Nat}
    {inlined : EditorGraph} (run : inline catalog app graph version maxDepth = .ok inlined) :
    graph.Filled inlined ∧ ∀ (other : WorkflowCatalog) (version' : GraphVersion),
      inline other app inlined version' maxDepth = .ok inlined := by
  obtain ⟨⟨made, b⟩, steps, rfl⟩ := map_eq_ok.mp run
  obtain ⟨_, a, visited, inside⟩ := run_read_bind_eq_ok.mp steps
  refine ⟨filled_of_inlineChildren inside, fun other version' => ?_⟩
  have again : (visitOnly 0 app >>= fun _ => inlineChildren other (maxDepth - 1) version' 1 made)
      { maxDepth } = .ok (made, b) :=
    (run_read_bind visited).trans (inlineChildren_again rows version' inside)
  exact congrArg (Except.map Prod.fst) again

/-- The customer's graph holds all of the shop, whatever becomes of the library. -/
theorem inline_self_contained_closedShop :
    let library := shop (single "drafted") (single "published")
    LegibleRows library.catalog ∧
      ∃ inlined, inline library.catalog "customer" customer .draft 3 = .ok inlined ∧
        inlined ≠ customer ∧ customer.Filled inlined ∧
        ∀ (other : WorkflowCatalog) (version : GraphVersion),
          inline other "customer" inlined version 3 = .ok inlined := by
  intro library
  have rows : LegibleRows library.catalog := legibleRows_of_decoded (by decide +kernel)
  have differs : (inline library.catalog "customer" customer .draft 3).toOption ≠ none ∧
      (inline library.catalog "customer" customer .draft 3).toOption ≠ some customer := by
    decide +kernel
  obtain ⟨inlined, hinlined⟩ := Option.ne_none_iff_exists'.mp differs.1
  have run := eq_ok_of_toOption hinlined
  exact ⟨rows, inlined, run, fun he => differs.2 (he ▸ hinlined), inline_self_contained rows run⟩

end Library

end WorkflowCompiler
