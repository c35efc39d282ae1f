import WorkflowCompiler.Proofs.Library.Rows

/-!
# Inlining step by step

How inlining goes on from node to node and from graph to graph.
-/
namespace WorkflowCompiler

namespace Library

variable {catalog : WorkflowCatalog} {version : GraphVersion} {ancestors : List String}
  {maxDepth : Nat} {a : Ancestry}

theorem run_read_bind {α β : Type} {m : ReadM α} {k : α → ReadM β} {a b : Ancestry} {x : α}
    (run : m a = .ok (x, b)) : (m >>= k) a = k x b := by
  show (m a >>= fun p => k p.1 p.2) = _
  rw [run]
  rfl

theorem run_read_bind_eq_ok {α β : Type} {m : ReadM α} {k : α → ReadM β} {a c : Ancestry} {y : β} :
    (m >>= k) a = .ok (y, c) ↔ ∃ x b, m a = .ok (x, b) ∧ k x b = .ok (y, c) := by
  show (m a >>= fun p => k p.1 p.2) = _ ↔ _
  rw [bind_eq_ok]
  exact ⟨fun ⟨⟨x, b⟩, run, rest⟩ => ⟨x, b, run, rest⟩, fun ⟨x, b, run, rest⟩ => ⟨(x, b), run, rest⟩⟩

/-- What is done with a list is done with each of its items. -/
theorem forall₂_of_run_mapM {α β : Type} {f : α → ReadM β} {xs : List α} {ys : List β}
    {a c : Ancestry} (run : (xs.mapM f) a = .ok (ys, c)) :
    List.Forall₂ (fun x y => ∃ a b, f x a = .ok (y, b)) xs ys := by
  induction xs generalizing ys a with
  | nil =>
    obtain ⟨rfl, -⟩ := Prod.mk.inj (Except.ok.inj run)
    exact .nil
  | cons x xs ih =>
    rw [List.mapM_cons] at run
    obtain ⟨y, b, first, run⟩ := run_read_bind_eq_ok.mp run
    obtain ⟨rest, d, others, run⟩ := run_read_bind_eq_ok.mp run
    obtain ⟨rfl, rfl⟩ := Prod.mk.inj (Except.ok.inj run)
    exact .cons ⟨a, b, first⟩ (ih others)

theorem visitOnly_below (below : a.Below ancestors maxDepth) {app : String}
    (new : app ∉ ancestors) (room : ancestors.length < maxDepth) :
    ∃ b, visitOnly ancestors.length app a = .ok ((), b) ∧ b.Below (ancestors ++ [app]) maxDepth := by
  rcases Ancestry.visit_below below app with ⟨_, _, b, run, below, _⟩ | ⟨cycle | deep, _⟩
  · exact ⟨b, by rw [visitOnly, run], below⟩
  · exact absurd cycle new
  · exact absurd room (Nat.not_lt.mpr deep)

/-- How the graph of a child is inlined when so many further levels may follow. -/
def inlineInner (catalog : WorkflowCatalog) (room level : Nat) :
    String → GraphVersion → EditorGraph → ReadM EditorGraph :=
  match room with
  | 0 => fun app _ _ => throw (.nestingTooDeep app level)
  | room + 1 => fun _ version child => inlineChildren catalog room version (level + 1) child

theorem inlineChildren_eq (room level : Nat) (graph : EditorGraph) :
    inlineChildren catalog room version level graph =
      inlineGraph catalog (inlineInner catalog room level) version level graph := by
  cases room <;> rfl

theorem inlineNode_plain {inlineChild : String → GraphVersion → EditorGraph → ReadM EditorGraph}
    {node : EditorNode} (plain : node.holdsGraph = false) (level : Nat) :
    inlineNode catalog inlineChild version level node a = .ok (node, a) := by
  rw [inlineNode, plain]
  rfl

theorem run_inlineNode {inlineChild : String → GraphVersion → EditorGraph → ReadM EditorGraph}
    {node : EditorNode} (holds : node.holdsGraph = true) {level : Nat} {b c : Ancestry}
    {child nested : EditorGraph} (visited : visitOnly level node.childApp a = .ok ((), b))
    (found : childGraph catalog node (childVersion node version) = .ok child)
    (inlined : inlineChild node.childApp (childVersion node version) child b = .ok (nested, c)) :
    inlineNode catalog inlineChild version level node a = .ok (node.embed nested, c) := by
  have found : (liftM (childGraph catalog node (childVersion node version)) : ReadM EditorGraph) b =
      .ok (child, b) := by
    rw [found]
    rfl
  rw [inlineNode, if_pos holds, run_read_bind visited, run_read_bind found, run_read_bind inlined]
  rfl

/-- A node in which something has been inlined embeds what is inlined in the graph that it refers
to. -/
theorem inlineNode_eq_ok {inlineChild : String → GraphVersion → EditorGraph → ReadM EditorGraph}
    {node made : EditorNode} {level : Nat} {c : Ancestry}
    (run : inlineNode catalog inlineChild version level node a = .ok (made, c)) :
    node.holdsGraph = false ∧ made = node ∨
      node.holdsGraph = true ∧ ∃ child nested b,
        visitOnly level node.childApp a = .ok ((), b) ∧
        childGraph catalog node (childVersion node version) = .ok child ∧
        inlineChild node.childApp (childVersion node version) child b = .ok (nested, c) ∧
        made = node.embed nested := by
  by_cases holds : node.holdsGraph = true
  · rw [inlineNode, if_pos holds] at run
    obtain ⟨_, b, visited, run⟩ := run_read_bind_eq_ok.mp run
    obtain ⟨child, d, found, run⟩ := run_read_bind_eq_ok.mp run
    obtain ⟨nested, e, inlined, run⟩ := run_read_bind_eq_ok.mp run
    obtain ⟨rfl, rfl⟩ := Prod.mk.inj (Except.ok.inj run)
    obtain ⟨p, hp, hchild⟩ := bind_eq_ok.mp found
    obtain ⟨rfl, rfl⟩ := Prod.mk.inj (Except.ok.inj hchild)
    exact .inr ⟨holds, _, nested, _, visited, hp, inlined, rfl⟩
  · have plain : node.holdsGraph = false := by simpa using holds
    rw [inlineNode_plain plain] at run
    exact .inl ⟨plain, (Prod.mk.inj (Except.ok.inj run)).1.symm⟩

/-- Inlining changes the nodes of a graph one by one and nothing else. -/
theorem inlineChildren_eq_ok {room level : Nat} {graph made : EditorGraph} {c : Ancestry}
    (run : inlineChildren catalog room version level graph a = .ok (made, c)) :
    ∃ nodes, made = { graph with nodes } ∧ List.Forall₂ (fun node node' => ∃ a b,
      inlineNode catalog (inlineInner catalog room level) version level node a = .ok (node', b))
      graph.nodes nodes := by
  rw [inlineChildren_eq, inlineGraph] at run
  obtain ⟨nodes, b, inlined, run⟩ := run_read_bind_eq_ok.mp run
  obtain ⟨rfl, -⟩ := Prod.mk.inj (Except.ok.inj run)
  exact ⟨nodes, rfl, forall₂_of_run_mapM inlined⟩

/-- What is inlined in a child is inlined with less room. -/
theorem inlineInner_eq_ok {room level : Nat} {app : String} {child nested : EditorGraph}
    {c : Ancestry} (run : inlineInner catalog room level app version child a = .ok (nested, c)) :
    ∃ room level, inlineChildren catalog room version level child a = .ok (nested, c) := by
  cases room with
  | zero => cases run
  | succ room => exact ⟨room, level + 1, run⟩

theorem childGraph_of_embedded {node : EditorNode} {graph : EditorGraph}
    (embedded : node.embedded? = .ok (some graph)) : childGraph catalog node version = .ok graph := by
  rw [childGraph, embedded]
  rfl

theorem childGraph_of_row {node : EditorNode} (embedded : node.embedded? = .ok none)
    {row : Workflow} (stored : catalog.workflow node.childApp version = .ok (some row)) :
    childGraph catalog node version = .ok row.graph := by
  rw [childGraph, embedded]
  show (do return (← (catalog.workflow node.childApp version).get "workflow" node.childApp).graph) = _
  rw [stored]
  rfl

end Library

end WorkflowCompiler
