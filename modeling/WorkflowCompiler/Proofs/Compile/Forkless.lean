import WorkflowCompiler.Proofs.Compile.Remaining
import WorkflowCompiler.Proofs.Compile.Showing

/-!
# Levels without forks

Nothing is folded in a level without forks and aggregators. Its flow has the connections of the
editor, each as often as it is there, and one entry for each node but starts and ends, in an order
in which connections lead forward. Nodes that could not be built keep their places.
-/
namespace WorkflowCompiler

theorem NodeBody.not_isStructural_of_isFailed {body : NodeBody} (h : body.isFailed = true) :
    body.isStructural = false := by
  cases body with
  | failed => rfl
  | _ => cases h

/-- The connection of a flow that an arrow of a wiring becomes. -/
def Session.edgeOf (s : Session) (a : Arrow) : FlowEdge :=
  ⟨s.nameOf a.source, s.nameOf a.target, a.data.formatter⟩

/-- Sorting the links into a node by port drops none. -/
theorem Flattening.perm_linksInto {s : Session} {id : String} {node : Node}
    (hn : s.node? id = some node) (w : Wiring) :
    ((linksInto s w id).map (edgeOf s id)).Perm
      ((w.incoming id).map fun p => s.edgeOf p.arrow) := by
  have same : (w.incoming id).map (fun p => s.edgeOf p.arrow) =
      ((w.incoming id).map PlacedLink.link).map (edgeOf s id) := by
    rw [List.map_map]
    refine List.map_congr_left fun p hp => ?_
    obtain rfl : p.link.target = id := (Wiring.mem_incoming.mp hp).2
    rfl
  rw [same, linksInto_of_node? hn]
  exact (List.mergeSort_perm _ _).map _

namespace Block

/-- Without forks and aggregators there are no blocks. -/
theorem matchAll_of_plain {registry : Registry} {ids : List String}
    (plain : ∀ id ∈ ids, bracket? registry id = none) : matchAll registry ids = .ok [] := by
  unfold matchAll
  induction ids with
  | nil => rfl
  | cons id ids ih =>
    obtain ⟨hid, hids⟩ := List.forall_mem_cons.mp plain
    simpa [matchFrom, hid] using ih hids

end Block

namespace EditorGraph

/-- The id under which flows know a node: the kind says whether that is the entry or the exit. -/
def nameOf (graph : EditorGraph) (id : String) : String :=
  ((graph.nodes.find? fun raw => raw.id = id).map fun raw =>
    Flattening.emittedId (Node.ofEditor raw)).getD id

/-- A connection as a flow without forks shows it. -/
def shownEdge (graph : EditorGraph) (edge : EditorEdge) : FlowEdge :=
  ⟨graph.nameOf edge.source, graph.nameOf edge.target, edge.formatter.orElse fun _ => edge.label⟩

/-- The nodes of a graph that are neither starts nor ends. -/
def visible (graph : EditorGraph) : List EditorNode :=
  graph.nodes.filter fun raw => !(Node.ofEditor raw).isStart && !(Node.ofEditor raw).isEnd

/-- Whether no node of a graph is a fork or an aggregator. -/
def Forkless (graph : EditorGraph) : Prop :=
  ∀ raw ∈ graph.nodes, (Node.ofEditor raw).isFork = false ∧ (Node.ofEditor raw).isAggregator = false

end EditorGraph

namespace Level

namespace Compiled

variable {room : Nat} {graph : EditorGraph} {s t built connected : Session} {flow : Flow}
  {order : List String} {blocks : List Block} {g : Block.Folding}
  (c : Compiled room graph s t flow built connected order blocks g)
  (distinct : (graph.nodes.map EditorNode.id).Nodup)

include c distinct

/-- A node of the level is registered under the kind that it declares, and one that could not be
built is shown. -/
theorem exists_declared {raw : EditorNode} (h : raw ∈ graph.nodes) :
    ∃ node, t.node? raw.id = some node ∧ node.id = raw.id ∧
      node.lowerKind = (Node.ofEditor raw).lowerKind ∧
      node.isStructural = (Node.ofEditor raw).isMarker := by
  have behaves := behaves_nestedCompiler room
  obtain ⟨first, builds⟩ := c.exists_builds h
  obtain ⟨node, hnode, hbare⟩ := c.registers distinct builds
  obtain ⟨u, v, -, run⟩ := builds
  have from_ := ((ensures_buildNode behaves raw u).of_ok run).1
  have hkind : node.lowerKind = (Node.ofEditor raw).lowerKind :=
    (Node.lowerKind_of_bare hbare).trans from_.lowerKind
  have hmarker : node.isMarker = (Node.ofEditor raw).isMarker := by
    simp [Node.isMarker, Node.isStart, Node.isEnd, Node.isAggregator, hkind]
  refine ⟨node, hnode, (Node.id_of_bare hbare).trans from_.id, hkind, ?_⟩
  rcases hfailed : node.isFailed with _ | _
  · rw [← hmarker]
    exact (from_.wellMade.of_bare hbare.symm).isStructural hfailed
  · -- a node that may fail is none of those that are not emitted
    have hno : (Node.ofEditor raw).isMarker ≠ true := by
      intro hm
      have hname := NodeKind.ofName?_of_mem_markerNames (Node.isMarker_iff.mp hm)
      have hbuilt := isFailed_of_marker run hname
      rw [← Node.isFailed_of_bare hbare, hfailed] at hbuilt
      cases hbuilt
    rw [Node.isStructural, NodeBody.not_isStructural_of_isFailed hfailed]
    simpa using hno

theorem shows_eq {raw : EditorNode} (h : raw ∈ graph.nodes) :
    t.shows raw.id = !(Node.ofEditor raw).isMarker := by
  obtain ⟨node, hnode, -, -, hvisible⟩ := c.exists_declared distinct h
  simp [Session.shows, hnode, hvisible]

theorem nameOf_declared {id : String} (h : id ∈ graph.nodes.map EditorNode.id) :
    t.nameOf id = graph.nameOf id := by
  obtain ⟨raw, hraw, rfl⟩ := List.mem_map.mp h
  obtain ⟨node, hnode, hid, hkind, -⟩ := c.exists_declared distinct hraw
  have some : (graph.nodes.find? fun other => other.id = raw.id).isSome :=
    List.find?_isSome.mpr ⟨raw, hraw, by simp⟩
  obtain ⟨found, hfind⟩ := Option.isSome_iff_exists.mp some
  obtain rfl : found = raw := List.inj_on_of_nodup_map distinct (List.mem_of_find?_eq_some hfind)
    hraw (by simpa using List.find?_some hfind)
  rw [Session.nameOf_eq hnode, EditorGraph.nameOf, hfind]
  simp [Flattening.emittedId, Node.isStart, Node.isEnd, hkind, hid]
  rfl

section Forkless

variable (forkless : graph.Forkless)

include forkless

theorem blocks_eq_nil : blocks = [] := by
  have plain : ∀ id ∈ order, Block.bracket? connected.registry id = none := by
    intro id hid
    obtain ⟨raw, hraw, rfl⟩ := List.mem_map.mp (c.mem_order.mp hid)
    obtain ⟨node, hnode, -, hkind, -⟩ := c.exists_declared distinct hraw
    obtain ⟨old, hold, hbare⟩ := c.exists_matched hnode
    have hkind' : old.lowerKind = (Node.ofEditor raw).lowerKind :=
      (Node.lowerKind_of_bare hbare).trans hkind
    obtain ⟨hfork, haggregator⟩ := forkless raw hraw
    have hfork' : old.isFork = false := by rw [← hfork, Node.isFork, hkind', Node.isFork]
    have haggregator' : old.isAggregator = false := by
      rw [← haggregator, Node.isAggregator, hkind', Node.isAggregator]
    simp [Block.bracket?, hold, hfork', haggregator']
  have hmatched := c.matched
  rw [Block.matchAll_of_plain plain] at hmatched
  exact (Except.ok.inj hmatched).symm

theorem wiring_eq : g.wiring = wiring built.registry graph := by
  have hfolding := c.folding
  rw [c.blocks_eq_nil distinct forkless] at hfolding
  obtain rfl := (Prod.mk.inj hfolding).2
  rfl

theorem remaining_eq : remaining order g = order := by
  refine List.filter_eq_self.mpr fun id hid => ?_
  rw [Wiring.contains, List.contains_iff_mem, c.wiring_eq distinct forkless]
  exact c.isOrder.perm.mem_iff.mp hid

/-- The link of a connection becomes the connection as a flow without forks shows it. -/
theorem edgeOf_arrow {edge : EditorEdge} (h : edge ∈ graph.edges) :
    t.edgeOf (arrow built.registry edge) = graph.shownEdge edge := by
  obtain ⟨hsource, htarget⟩ := c.scanned.ends edge h
  obtain ⟨raw, hraw, hid⟩ := List.mem_map.mp hsource
  obtain ⟨node, hnode, -, hkind, -⟩ := c.exists_declared distinct hraw
  have hfork : node.isFork = false := by
    rw [← (forkless raw hraw).1, Node.isFork, hkind, Node.isFork]
  have hformatter : t.formatterOf edge = edge.formatter.orElse fun _ => edge.label := by
    simp [Session.formatterOf, ← hid, hnode, hfork]
  show FlowEdge.mk (t.nameOf edge.source) (t.nameOf edge.target) _ = graph.shownEdge edge
  rw [c.nameOf_declared distinct hsource, c.nameOf_declared distinct htarget,
    (c.data_arrow h).1, hformatter]
  rfl

/-- All connections of the editor are shown, each as often as it is there. -/
theorem perm_edges : flow.edges.Perm (graph.edges.map graph.shownEdge) := by
  let w := wiring built.registry graph
  have into : ∀ id ∈ order, ((Flattening.linksInto t w id).map (Flattening.edgeOf t id)).Perm
      ((w.incoming id).map fun p => t.edgeOf p.arrow) := by
    intro id hid
    obtain ⟨node, hnode, -⟩ := c.exists_remaining (c.remaining_eq distinct forkless ▸ hid)
    exact Flattening.perm_linksInto hnode w
  have all : (order.flatMap fun id => w.incoming id).Perm w.placed :=
    perm_flatMap_filter (fun p : PlacedLink => p.link.target) c.nodup fun p hp =>
      c.isOrder.perm.mem_iff.mpr ((valid_wiring built.registry graph).target p hp)
  calc flow.edges
      = order.flatMap fun id =>
          (Flattening.linksInto t w id).map (Flattening.edgeOf t id) := by
        rw [c.reads.2, c.remaining_eq distinct forkless, c.wiring_eq distinct forkless]
    List.Perm _ (order.flatMap fun id => (w.incoming id).map fun p => t.edgeOf p.arrow) :=
        List.Perm.flatMap_left _ into
    _ = (order.flatMap fun id => w.incoming id).map fun p => t.edgeOf p.arrow := by
        rw [List.map_flatMap]
    List.Perm _ (w.placed.map fun p => t.edgeOf p.arrow) := all.map _
    _ = w.arrows.map t.edgeOf := by rw [Wiring.arrows, List.map_map]; rfl
    _ = graph.edges.map graph.shownEdge := by
        rw [show w.arrows = _ from Wiring.arrows_wired (ends_of_edges c.scanned.ends), List.map_map]
        exact List.map_congr_left fun edge h => c.edgeOf_arrow distinct forkless h

end Forkless

omit distinct in
/-- What is emitted for a node is its entry. -/
theorem hasEntry {id : String} (h : id ∈ remaining order g) (shown : t.shows id = true)
    {fields : JsonObject} (emits : t.EmitsAs id fields) : t.HasEntry id fields := by
  obtain ⟨node, hnode, hfields⟩ := emits
  have visible : node.isStructural = false := by simpa [Session.shows, hnode] using shown
  exact Session.hasEntry_of_emit hnode (c.made_of_node? h hnode).1 visible hfields

/-- The entries stand for the nodes but starts and ends. -/
theorem perm_shown (forkless : graph.Forkless) :
    ((remaining order g).filter t.shows).Perm (graph.visible.map EditorNode.id) := by
  have hshows : ∀ raw ∈ graph.nodes, t.shows raw.id =
      (!(Node.ofEditor raw).isStart && !(Node.ofEditor raw).isEnd) := by
    intro raw hraw
    simp [c.shows_eq distinct hraw, Node.isMarker, (forkless raw hraw).2]
  have hids : order.Perm (graph.nodes.map EditorNode.id) :=
    (List.perm_ext_iff_of_nodup c.nodup distinct).mpr fun _ => c.mem_order
  rw [c.remaining_eq distinct forkless]
  refine (hids.filter _).trans (.of_eq ?_)
  rw [List.filter_map, EditorGraph.visible]
  exact congrArg _ (List.filter_congr hshows)

end Compiled

/-- The flow of a level without forks has exactly the connections of the editor and one entry for
each node that is neither a start nor an end, in an order in which connections lead forward. -/
theorem forkless_shows_all {room : Nat} {graph : EditorGraph} {s t : Session} {flow : Flow}
    (run : compile (nestedCompiler room) graph s = (.ok flow, t))
    (distinct : (graph.nodes.map EditorNode.id).Nodup) (forkless : graph.Forkless) :
    flow.edges.Perm (graph.edges.map graph.shownEdge) ∧
      ∃ shown : List String, shown.Perm (graph.visible.map EditorNode.id) ∧
        List.Forall₂ t.HasEntry shown flow.nodes ∧
        ∀ edge ∈ graph.edges, edge.source ∈ shown → edge.target ∈ shown →
          shown.idxOf edge.source < shown.idxOf edge.target := by
  obtain ⟨built, connected, order, blocks, g, c⟩ := compiled_of_compile run
  refine ⟨c.perm_edges distinct forkless, _, c.perm_shown distinct forkless, ?_, ?_⟩
  · have both := (List.forall₂_and_left _ _).mpr
      ⟨fun id (hid : id ∈ (remaining order g).filter t.shows) => List.mem_filter.mp hid, c.reads.1⟩
    exact both.imp fun id fields h => c.hasEntry h.1.1 h.1.2 h.2
  · intro edge hedge hsource _
    obtain ⟨hsource, hshows⟩ := List.mem_filter.mp hsource
    refine c.idxOf_shown_lt hsource hshows (Wiring.joined_iff.mpr ?_)
    refine ⟨arrow built.registry edge, ?_, rfl, rfl⟩
    rw [c.wiring_eq distinct forkless, wiring, Wiring.arrows_wired (ends_of_edges c.scanned.ends)]
    exact List.mem_map_of_mem hedge

/-- A graph without forks, with two ends and a node that cannot be built. -/
def noForks : EditorGraph where
  nodes := [bareNode "s" "start", bareNode "a" "formatter", bareNode "b" "code",
    bareNode "e" "end", bareNode "z" "end"]
  edges := [{ source := "s", target := "b" }, { source := "s", target := "a", label := some "x" },
    { source := "a", target := "e" }, { source := "b", target := "z" }]

theorem forkless_shows_all_noForks :
    ∃ flow t, compile (nestedCompiler 16) noForks {} = (.ok flow, t) ∧
      flow.edges.Perm (noForks.edges.map noForks.shownEdge) ∧
      ∃ shown : List String, shown.Perm (noForks.visible.map EditorNode.id) ∧
        List.Forall₂ t.HasEntry shown flow.nodes ∧
        ∀ edge ∈ noForks.edges, edge.source ∈ shown → edge.target ∈ shown →
          shown.idxOf edge.source < shown.idxOf edge.target := by
  have ok : (compile (nestedCompiler 16) noForks {}).1.isOk = true := by decide +kernel
  have plain : noForks.Forkless := by
    unfold EditorGraph.Forkless
    decide +kernel
  rcases run : compile (nestedCompiler 16) noForks {} with ⟨e | flow, t⟩
  · rw [run] at ok
    cases ok
  · exact ⟨flow, t, rfl, forkless_shows_all run (by decide) plain⟩

end Level

end WorkflowCompiler
