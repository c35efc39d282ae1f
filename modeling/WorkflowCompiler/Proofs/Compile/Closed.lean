import WorkflowCompiler.Proofs.Compile.Remaining

/-!
# Closed flows

In the flow of a level without stand-ins, each end of a connection is the entry or the exit of the
flow or a node that has an entry of its own, and connections lead from earlier entries to later
ones.
-/
namespace WorkflowCompiler

namespace Flattening

/-- Built nodes are listed in the order in which they are read off. -/
theorem findIdx_entryOf {s : Session} {ids : List String} {nodes : List JsonObject}
    (h : List.Forall₂ s.EmitsAs ids nodes)
    (built : ∀ id ∈ ids, ∀ node, s.node? id = some node →
      node.id = id ∧ node.isStructural = false ∧ node.isFailed = false) (id : String) :
    nodes.findIdx (entryOf id) = ids.idxOf id := by
  induction h with
  | nil => rfl
  | @cons other fields ids nodes first _ ih =>
    obtain ⟨node, hn, hfields⟩ := first
    obtain ⟨hid, visible, hbuilt⟩ := built other List.mem_cons_self node hn
    have hentry : entryOf id fields = (other == id) := by
      rw [Bool.eq_iff_iff, entryOf_of_emit visible hbuilt hfields id, hid, beq_iff_eq]
    have hrest := ih fun x hx => built x (List.mem_cons_of_mem _ hx)
    rw [List.findIdx_cons, List.idxOf_cons, hrest, hentry]

end Flattening

/-- What stands at an end of a connection of a flow: a node of the level, but no aggregator and none
in a branch of a fork, by the name of the entry or of the exit, or else by that of its own entry. -/
structure Session.Ends (t : Session) (graph : EditorGraph) (flow : Flow) (node : Node)
    (name : String) : Prop where
  level : node.id ∈ graph.nodes.map EditorNode.id
  registered : t.node? node.id = some node
  start : node.isStart = true → name = Flattening.entryId
  stop : node.isEnd = true → name = Flattening.exitId
  entry : node.isStart = false → node.isEnd = false → name = node.id ∧ flow.entriesOf name = 1
  not_aggregator : node.isAggregator = false
  outside : ∀ fork, ¬ t.Encloses graph fork node.id

namespace Level

namespace Compiled

variable {room : Nat} {graph : EditorGraph} {s t built connected : Session} {flow : Flow}
  {order : List String} {blocks : List Block} {g : Block.Folding}
  (c : Compiled room graph s t flow built connected order blocks g)
  (unfailed : ∀ raw ∈ graph.nodes, ∀ node, t.node? raw.id = some node → node.isFailed = false)

include c unfailed

theorem not_isFailed {id : String} (h : id ∈ remaining order g) {node : Node}
    (hn : t.node? id = some node) : node.isFailed = false := by
  obtain ⟨raw, hraw, rfl⟩ := List.mem_map.mp (c.mem_order.mp (List.mem_filter.mp h).1)
  exact unfailed raw hraw node hn

theorem isStructural_eq {id : String} (h : id ∈ remaining order g) {node : Node}
    (hn : t.node? id = some node) : node.isStructural = node.isMarker :=
  (c.made_of_node? h hn).2.isStructural (c.not_isFailed unfailed h hn)

/-- A node that is left and is neither a start nor an end has one entry. -/
theorem entriesOf_remaining {id : String} (h : id ∈ remaining order g) {node : Node}
    (hn : t.node? id = some node) (visible : node.isMarker = false) : flow.entriesOf id = 1 := by
  have hcount := Flattening.countP_emitNodes (Flattening.nodes_of_flow c.flow)
    (fun x hx found hfound =>
      ⟨(c.made_of_node? hx hfound).1, c.not_isFailed unfailed hx hfound⟩)
    hn ((c.isStructural_eq unfailed h hn).trans visible)
  exact hcount.trans (List.count_eq_one_of_mem c.nodup_remaining h)

/-- What the name of a node that is left stands for in the flow. -/
theorem ends {id : String} (h : id ∈ remaining order g) {node : Node}
    (hn : t.node? id = some node) : t.Ends graph flow node (t.nameOf id) := by
  obtain ⟨rfl, -⟩ := c.made_of_node? h hn
  have aggregator := c.not_isAggregator h hn
  rw [Session.nameOf_eq hn, Flattening.emittedId]
  refine ⟨c.mem_order.mp (List.mem_filter.mp h).1, hn, fun hs => by simp [hs], fun he => ?_,
    fun hs he => ?_, aggregator, c.not_encloses h⟩
  · simp [Node.not_isStart_of_isEnd he, he]
  · have visible : node.isMarker = false := by simp [Node.isMarker, hs, he, aggregator]
    simp [hs, he, c.entriesOf_remaining unfailed h hn visible]

/-- The entry of a node comes before those of the nodes that its connections lead to. -/
theorem findIdx_lt {a b : String} (ha : a ∈ remaining order g) {source : Node}
    (hn : t.node? a = some source) (visible : source.isMarker = false)
    (h : g.wiring.Joined a b) :
    flow.nodes.findIdx (Flattening.entryOf a) < flow.nodes.findIdx (Flattening.entryOf b) := by
  have built : ∀ id ∈ (remaining order g).filter t.shows, ∀ node, t.node? id = some node →
      node.id = id ∧ node.isStructural = false ∧ node.isFailed = false := by
    intro id hid node hnode
    obtain ⟨hid, hshows⟩ := List.mem_filter.mp hid
    refine ⟨(c.made_of_node? hid hnode).1, ?_, c.not_isFailed unfailed hid hnode⟩
    simpa [Session.shows, hnode] using hshows
  have shown : t.shows a = true := by
    simp [Session.shows, hn, c.isStructural_eq unfailed ha hn, visible]
  rw [Flattening.findIdx_entryOf c.reads.1 built, Flattening.findIdx_entryOf c.reads.1 built]
  exact c.idxOf_shown_lt ha shown h

end Compiled

/-- The flow of a level without stand-ins is closed, and its connections lead forward. -/
theorem closed_and_forward {room : Nat} {graph : EditorGraph} {s t : Session} {flow : Flow}
    (run : compile (nestedCompiler room) graph s = (.ok flow, t))
    (unfailed : ∀ raw ∈ graph.nodes, ∀ node, t.node? raw.id = some node → node.isFailed = false)
    {edge : FlowEdge} (h : edge ∈ flow.edges) :
    ∃ source target, t.Ends graph flow source edge.iid ∧ t.Ends graph flow target edge.oid ∧
      (source.isMarker = false → target.isMarker = false →
        flow.nodes.findIdx (Flattening.entryOf edge.iid) <
          flow.nodes.findIdx (Flattening.entryOf edge.oid)) := by
  obtain ⟨built, connected, order, blocks, g, c⟩ := compiled_of_compile run
  obtain ⟨a, ha, b, hb, joined, hiid, hoid⟩ := c.exists_joined h
  obtain ⟨source, hsource, rfl, -⟩ := c.exists_remaining ha
  obtain ⟨target, htarget, rfl, -⟩ := c.exists_remaining hb
  have hends := c.ends unfailed ha hsource
  have hends' := c.ends unfailed hb htarget
  rw [← hiid] at hends
  rw [← hoid] at hends'
  refine ⟨source, target, hends, hends', fun visible visible' => ?_⟩
  simp only [Node.isMarker, Bool.or_eq_false_iff] at visible visible'
  rw [(hends.entry visible.1.1 visible.1.2).1, (hends'.entry visible'.1.1 visible'.1.2).1]
  exact c.findIdx_lt unfailed ha hsource (by simp [Node.isMarker, visible]) joined

theorem closed_and_forward_oneFork :
    ∃ flow t, compile (nestedCompiler 16) oneFork {} = (.ok flow, t) ∧
      ∃ source target, t.Ends oneFork flow source "f" ∧ t.Ends oneFork flow target "__end__" ∧
        (source.isMarker = false → target.isMarker = false →
          flow.nodes.findIdx (Flattening.entryOf "f") <
            flow.nodes.findIdx (Flattening.entryOf "__end__")) := by
  have leaves : ((compile (nestedCompiler 16) oneFork {}).1.toOption.any fun flow =>
      flow.edges.contains ⟨"f", "__end__", none⟩) = true := by decide +kernel
  have unfailed : ∀ raw ∈ oneFork.nodes,
      ∀ node ∈ (compile (nestedCompiler 16) oneFork {}).2.node? raw.id,
        node.isFailed = false := by decide +kernel
  rcases run : compile (nestedCompiler 16) oneFork {} with ⟨e | flow, t⟩
  · rw [run] at leaves
    cases leaves
  · rw [run] at leaves unfailed
    exact ⟨flow, t, rfl, closed_and_forward run unfailed (List.contains_iff_mem.mp leaves)⟩

end Level

end WorkflowCompiler
