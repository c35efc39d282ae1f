import Mathlib.Data.List.Perm.Basic
import WorkflowCompiler.Proofs.Node.Kinds

/-!
# Structured graphs

A structured graph is one chain of items from a start to an end. An item is a plain node or a block:
a fork, an aggregator, and the chains that lead from one to the other. The order in which nodes,
connections and the chains of a fork are listed does not matter.
-/
namespace WorkflowCompiler

/-- A chain of items with the connections in front of, between and behind them. -/
inductive Route
  | link (edge : EditorEdge)
  | step (edge : EditorEdge) (node : EditorNode) (rest : Route)
  | block (edge : EditorEdge) (fork : EditorNode) (bodies : List Route) (stop : EditorNode)
      (rest : Route)

namespace Route

/-- The connection that a route starts with. -/
def first : Route → EditorEdge
  | .link edge | .step edge _ _ | .block edge _ _ _ _ => edge

/-- The port by which a route leaves a fork. -/
def port (r : Route) : String := Branching.portOf r.first

/-- The items of a route, a block being its fork. -/
def items : Route → List EditorNode
  | .link _ => []
  | .step _ node rest => node :: rest.items
  | .block _ fork _ _ rest => fork :: rest.items

mutual

/-- All nodes of a route. -/
def nodes : Route → List EditorNode
  | .link _ => []
  | .step _ node rest => node :: rest.nodes
  | .block _ fork bodies stop rest => fork :: (nodesAll bodies ++ stop :: rest.nodes)

/-- All nodes of routes. -/
def nodesAll : List Route → List EditorNode
  | [] => []
  | body :: bodies => body.nodes ++ nodesAll bodies

end

mutual

/-- All connections of a route. -/
def edges : Route → List EditorEdge
  | .link edge => [edge]
  | .step edge _ rest => edge :: rest.edges
  | .block edge _ bodies _ rest => edge :: (edgesAll bodies ++ rest.edges)

/-- All connections of routes. -/
def edgesAll : List Route → List EditorEdge
  | [] => []
  | body :: bodies => body.edges ++ edgesAll bodies

end

theorem nodesAll_eq (bodies : List Route) : nodesAll bodies = bodies.flatMap nodes := by
  induction bodies with
  | nil => simp [nodesAll]
  | cons body bodies ih => simp [nodesAll, ih]

theorem edgesAll_eq (bodies : List Route) : edgesAll bodies = bodies.flatMap edges := by
  induction bodies with
  | nil => simp [edgesAll]
  | cons body bodies ih => simp [edgesAll, ih]

theorem nodes_block (edge : EditorEdge) (fork : EditorNode) (bodies : List Route)
    (stop : EditorNode) (rest : Route) :
    (block edge fork bodies stop rest).nodes =
      fork :: (bodies.flatMap nodes ++ stop :: rest.nodes) := by
  rw [nodes, nodesAll_eq]

/-- The ids of all nodes of a route. -/
def ids (r : Route) : List String := r.nodes.map EditorNode.id

@[simp] theorem ids_link (edge : EditorEdge) : (link edge).ids = [] := rfl

@[simp] theorem ids_step (edge : EditorEdge) (node : EditorNode) (rest : Route) :
    (step edge node rest).ids = node.id :: rest.ids := rfl

@[simp] theorem ids_block (edge : EditorEdge) (fork : EditorNode) (bodies : List Route)
    (stop : EditorNode) (rest : Route) :
    (block edge fork bodies stop rest).ids =
      fork.id :: (bodies.flatMap ids ++ stop.id :: rest.ids) := by
  simp [ids, nodes_block, List.map_flatMap]
  rfl

theorem mem_ids_block {edge : EditorEdge} {fork stop : EditorNode} {bodies : List Route}
    {rest : Route} {id : String} :
    id ∈ (block edge fork bodies stop rest).ids ↔
      id = fork.id ∨ (∃ body ∈ bodies, id ∈ body.ids) ∨ id = stop.id ∨ id ∈ rest.ids := by
  rw [ids_block, List.mem_cons, List.mem_append, List.mem_flatMap, List.mem_cons]

@[simp] theorem edges_block (edge : EditorEdge) (fork : EditorNode) (bodies : List Route)
    (stop : EditorNode) (rest : Route) :
    (block edge fork bodies stop rest).edges = edge :: (bodies.flatMap edges ++ rest.edges) := by
  rw [edges, edgesAll_eq]

/-- The route leads from one node to another along its connections, every node is of the kind that
its place asks for, and every fork is left by declared ports. -/
inductive Leads : String → String → Route → Prop
  | link {source target : String} {edge : EditorEdge} (leaves : edge.source = source)
      (enters : edge.target = target) : Leads source target (.link edge)
  | step {source target : String} {edge : EditorEdge} {node : EditorNode} {rest : Route}
      (leaves : edge.source = source) (enters : edge.target = node.id)
      (notFork : (Node.ofEditor node).isFork = false)
      (notMarker : (Node.ofEditor node).isMarker = false) (after : Leads node.id target rest) :
      Leads source target (.step edge node rest)
  | block {source target : String} {edge : EditorEdge} {fork stop : EditorNode}
      {bodies : List Route} {rest : Route} (leaves : edge.source = source)
      (enters : edge.target = fork.id) (isFork : (Node.ofEditor fork).isFork = true)
      (isAggregator : (Node.ofEditor stop).isAggregator = true)
      (ports : (fork.declaredCases.map ForkCase.port).Nodup)
      (keys : (fork.declaredCases.map ForkCase.key).Nodup) (nonempty : bodies ≠ [])
      (distinct : (bodies.map port).Nodup)
      (declared : ∀ body ∈ bodies, body.port ∈ fork.declaredCases.map ForkCase.port)
      (inside : ∀ body ∈ bodies, Leads fork.id stop.id body)
      (after : Leads stop.id target rest) : Leads source target (.block edge fork bodies stop rest)

theorem Leads.source_first {source target : String} {r : Route} (h : Leads source target r) :
    r.first.source = source := by
  cases h <;> assumption

/-- Every connection of a route joins its nodes or one of its ends. -/
theorem Leads.ends {source target : String} {r : Route} (h : Leads source target r) :
    ∀ e ∈ r.edges, (e.source = source ∨ e.source ∈ r.ids) ∧ (e.target = target ∨ e.target ∈ r.ids) := by
  induction h with
  | link leaves enters =>
    intro e he
    obtain rfl := List.mem_singleton.mp he
    exact ⟨.inl leaves, .inl enters⟩
  | step leaves enters _ _ _ ih =>
    intro e he
    rcases List.mem_cons.mp he with rfl | he
    · exact ⟨.inl leaves, .inr (by simp [enters])⟩
    · obtain ⟨hs, ht⟩ := ih e he
      exact ⟨.inr (by simpa using hs), ht.imp_right (by simp +contextual)⟩
  | block leaves enters _ _ _ _ _ _ _ _ _ ihBodies ih =>
    intro e he
    rw [edges_block] at he
    rw [mem_ids_block, mem_ids_block]
    rcases List.mem_cons.mp he with rfl | he
    · exact ⟨.inl leaves, .inr (.inl enters)⟩
    · rcases List.mem_append.mp he with he | he
      · obtain ⟨body, hbody, he⟩ := List.mem_flatMap.mp he
        obtain ⟨hs, ht⟩ := ihBodies body hbody e he
        refine ⟨.inr ?_, .inr (.inr ?_)⟩
        · exact hs.imp_right fun hs => .inl ⟨body, hbody, hs⟩
        · exact ht.elim (fun ht => .inr (.inl ht)) fun ht => .inl ⟨body, hbody, ht⟩
      · obtain ⟨hs, ht⟩ := ih e he
        exact ⟨.inr (.inr (.inr hs)), ht.imp_right fun ht => .inr (.inr (.inr ht))⟩

/-- Only the first connection of a route leaves its source. -/
theorem Leads.edges_eq {source target : String} {r : Route} (h : Leads source target r) :
    ∃ more, r.edges = r.first :: more ∧ ∀ e ∈ more, e.source ∈ r.ids := by
  cases h with
  | link => exact ⟨[], rfl, by simp⟩
  | @step _ _ edge node rest leaves enters _ _ after =>
    refine ⟨rest.edges, rfl, fun e he => ?_⟩
    simpa using (after.ends e he).1
  | @block _ _ edge fork stop bodies rest leaves enters _ _ _ _ _ _ _ inside after =>
    refine ⟨_, edges_block _ _ _ _ _, fun e he => mem_ids_block.mpr ?_⟩
    rcases List.mem_append.mp he with he | he
    · obtain ⟨body, hbody, he⟩ := List.mem_flatMap.mp he
      exact ((inside body hbody).ends e he).1.imp_right fun hs => .inl ⟨body, hbody, hs⟩
    · exact .inr (.inr (after.ends e he).1)

/-- A route without nodes is one connection. -/
theorem Leads.eq_link {source target : String} {r : Route} (h : Leads source target r)
    (empty : r.ids = []) : ∃ edge, r = .link edge ∧ edge.source = source ∧ edge.target = target := by
  cases h with
  | @link _ _ edge leaves enters => exact ⟨edge, rfl, leaves, enters⟩
  | step => simp at empty
  | block => simp at empty

/-- A route with nodes ends with a connection that leaves one of them. -/
theorem Leads.exists_last {source target : String} {r : Route} (h : Leads source target r)
    (nonempty : r.ids ≠ []) : ∃ e ∈ r.edges, e.source ∈ r.ids ∧ e.target = target := by
  induction h with
  | link => exact absurd rfl nonempty
  | @step _ _ edge node rest _ _ _ _ after ih =>
    by_cases hrest : rest.ids = []
    · obtain ⟨last, rfl, leaves, enters⟩ := after.eq_link hrest
      exact ⟨last, by simp [edges], by simp [leaves], enters⟩
    · obtain ⟨e, he, hs, ht⟩ := ih hrest
      exact ⟨e, List.mem_cons_of_mem _ he, by simp [hs], ht⟩
  | @block _ _ edge fork stop bodies rest _ _ _ _ _ _ _ _ _ _ after _ ih =>
    by_cases hrest : rest.ids = []
    · obtain ⟨last, rfl, leaves, enters⟩ := after.eq_link hrest
      exact ⟨last, by simp [edges], by simp [leaves], enters⟩
    · obtain ⟨e, he, hs, ht⟩ := ih hrest
      exact ⟨e, by simp [he], by simp [hs], ht⟩

end Route

/-- The nodes and connections of the graph are those of a route from a start to an end. -/
structure EditorGraph.Structured (graph : EditorGraph) (start stop : EditorNode) (route : Route) :
    Prop where
  isStart : (Node.ofEditor start).isStart = true
  isEnd : (Node.ofEditor stop).isEnd = true
  leads : route.Leads start.id stop.id
  nodes : graph.nodes.Perm (start :: (route.nodes ++ [stop]))
  edges : graph.edges.Perm route.edges
  distinct : (graph.nodes.map EditorNode.id).Nodup

end WorkflowCompiler
