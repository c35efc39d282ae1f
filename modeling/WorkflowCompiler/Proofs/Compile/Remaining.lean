import WorkflowCompiler.Proofs.Compile.Places
import WorkflowCompiler.Proofs.Wiring.Handing

/-!
# What is left of a level

The nodes that are left when the blocks of a level have been folded are no aggregators and in no
branch, whatever the keys of the cases are. The links between them lead forward, and nothing that
they refer to is missing, so that a level which is built and folded is always read off. A flow lists
what is emitted for them, and for each of them the connections into it.
-/
namespace WorkflowCompiler

open Step

namespace Block

/-- Every aggregator in an order whose brackets match closes a block. -/
theorem exists_closing {registry : Registry} {roots blocks : List Block} {opened : List Opened}
    {ids : List String} (h : matchFrom registry roots opened ids = .ok blocks) {id : String}
    (hid : id ∈ ids) (closing : bracket? registry id = some .closing) :
    ∃ e ∈ closings registry (opened.map Opened.start) ids, e.2 = id := by
  induction ids generalizing roots opened with
  | nil => cases hid
  | cons first ids ih =>
    unfold closings
    rcases hb : bracket? registry first with _ | _ | _
    · rw [matchFrom_plain hb] at h
      refine ih h ((List.mem_cons.mp hid).resolve_left ?_)
      rintro rfl
      cases hb.symm.trans closing
    · rw [matchFrom_opening hb] at h
      refine ih h ((List.mem_cons.mp hid).resolve_left ?_)
      rintro rfl
      cases hb.symm.trans closing
    · rcases opened with _ | ⟨o, opened⟩
      · simp [matchFrom, hb] at h
      · by_cases he : id = first
        · exact ⟨(o.start, first), List.mem_cons_self, he.symm⟩
        · have hin := (List.mem_cons.mp hid).resolve_left he
          have hlater : ∃ e ∈ closings registry (opened.map Opened.start) ids, e.2 = id := by
            rcases opened with _ | ⟨parent, outer⟩ <;> simp only [matchFrom, hb] at h
            · exact ih h hin
            · simpa using ih h hin
          obtain ⟨e, hmem, hid⟩ := hlater
          exact ⟨e, List.mem_cons_of_mem _ hmem, hid⟩

theorem exists_pair_of_closing {registry : Registry} {order : List String} {blocks : List Block}
    (matched : matchAll registry order = .ok blocks) {id : String} (hid : id ∈ order)
    (closing : bracket? registry id = some .closing) : ∃ e ∈ pairsAll blocks, e.2 = id := by
  rw [pairsAll_of_matchAll matched]
  exact exists_closing matched hid closing

/-- No node in a branch of a fork of the level is in the wiring. -/
def Enclosed (order : List String) (f : Folding) : Prop :=
  ∀ fork ∈ order, ∀ node, f.registry.get? fork = some node → ∀ m ∈ node.members,
    m ∉ f.wiring.nodes

theorem Enclosed.next {order : List String} {f f' : Folding} (h : Enclosed order f)
    (v : f.wiring.Valid) {p : String × String} (fold : f.wiring.compress p.1 p.2 = .ok f'.wiring)
    (reg : f'.registry = assigned f p.1 p.2) : Enclosed order f' := by
  have folds := v.folds fold
  intro fork hfork node hn m hm
  rw [reg] at hn
  obtain ⟨old, hold, hmembers⟩ := mem_members_assigned hn
  rcases hmembers m hm with hin | ⟨-, hin⟩
  · exact fun hleft => h fork hfork old hold m hin (folds.mem_nodes.mp hleft).1
  · exact fun hleft => (folds.mem_nodes.mp hleft).2.2 hin

/-- What folding all matched blocks leaves of a wiring and its links. -/
theorem inherits_of_foldAll {w : Wiring} (v : w.Valid) {order : List String}
    (isOrder : w.IsOrder order) {r : Registry} {blocks : List Block}
    (matched : matchAll r order = .ok blocks)
    (fresh : ∀ id ∈ order, ∀ node, r.get? id = some node → node.members = []) {g : Folding}
    (run : foldAll blocks ⟨r, w⟩ = (.ok (), g)) :
    w.Inherits (pairsAll blocks) g.wiring ∧ Enclosed order g ∧
      Foldable order.idxOf [] g.wiring := by
  have foldable := foldable_of_matchAll v isOrder matched
  have nodup := isOrder.perm.nodup_iff.mpr v.nodup
  have start : Enclosed order ⟨r, w⟩ := by
    intro fork hfork node hn m hm
    simp [fresh fork hfork node hn] at hm
  have all := Foldable.run foldable (f := ⟨r, w⟩)
    (motive := fun done f => w.Inherits done f.wiring ∧ Enclosed order f)
    ⟨Wiring.inherits_nil w, start⟩ ?_
  · rw [foldAll_eq] at run
    obtain ⟨last, inherits, enclosed⟩ := all.of_ok run
    exact ⟨inherits, enclosed, last⟩
  · rintro done p rest f f' split hf ⟨inherits, enclosed⟩ fold reg
    obtain ⟨ne, hstart, hstop⟩ := fresh_of_matchAll nodup matched split
    exact ⟨inherits.next hf.valid ne hstart hstop fold, enclosed.next hf.valid fold reg⟩

end Block

namespace Session

/-- The id under which flows know a node. -/
def nameOf (s : Session) (id : String) : String :=
  ((s.node? id).map Flattening.emittedId).getD id

/-- Whether something is emitted for a node. -/
def shows (s : Session) (id : String) : Bool := (s.node? id).any fun node => !node.isStructural

/-- Whether `fields` is what is emitted for a node. -/
def EmitsAs (s : Session) (id : String) (fields : JsonObject) : Prop :=
  ∃ node, s.node? id = some node ∧ s.emit node = .ok fields

/-- Whether `fields` is the entry of a node: it carries the id of the node, or it is empty and the
node could not be built. -/
def HasEntry (s : Session) (id : String) (fields : JsonObject) : Prop :=
  ∃ node, s.node? id = some node ∧ s.emit node = .ok fields ∧
    if node.isFailed then fields = [] else Flattening.entryOf id fields = true

theorem emit_of_empty {s : Session} {node : Node}
    (empty : (node.isStructural || node.isFailed) = true) : s.emit node = .ok [] := by
  unfold emit Registry.emit
  rw [Registry.emitWithin_unfold, if_pos empty]

theorem hasEntry_of_emit {s : Session} {id : String} {node : Node} (hn : s.node? id = some node)
    (hid : node.id = id) (visible : node.isStructural = false) {fields : JsonObject}
    (h : s.emit node = .ok fields) : s.HasEntry id fields := by
  refine ⟨node, hn, h, ?_⟩
  rcases hfailed : node.isFailed with _ | _
  · simpa [hid] using Flattening.entryOf_of_emit visible hfailed h id
  · exact (Except.ok.inj ((emit_of_empty (by simp [hfailed])).symm.trans h)).symm

/-- What formats the data of a connection: its formatter, else its label where that names no case
of a fork. -/
def formatterOf (s : Session) (edge : EditorEdge) : Option String :=
  edge.formatter.orElse fun _ =>
    if (s.node? edge.source).any Node.isFork then none else edge.label

theorem nameOf_eq {s : Session} {id : String} {node : Node} (h : s.node? id = some node) :
    s.nameOf id = Flattening.emittedId node := by
  unfold nameOf
  rw [h]
  rfl

end Session

namespace Flattening

/-- The links into a node in the order in which they are emitted. -/
def linksInto (s : Session) (w : Wiring) (id : String) : List Link :=
  ((s.node? id).map fun node =>
    sortedByPort node ((w.incoming id).map PlacedLink.link)).getD []

theorem linksInto_of_node? {s : Session} {id : String} {node : Node} (hn : s.node? id = some node)
    (w : Wiring) : linksInto s w id = sortedByPort node ((w.incoming id).map PlacedLink.link) := by
  unfold linksInto
  rw [hn]
  rfl

/-- The connection that a link into a node becomes. -/
def edgeOf (s : Session) (id : String) (l : Link) : FlowEdge :=
  ⟨s.nameOf l.source, s.nameOf id, l.data.formatter⟩

theorem flowEdge_eq_ok {s : Session} {id : String} {node : Node} (hn : s.node? id = some node)
    {l : Link} {edge : FlowEdge} (h : flowEdge s id node l = .ok edge) : edge = edgeOf s id l := by
  obtain ⟨source, hsource, h⟩ := bind_eq_ok.mp h
  obtain rfl := pure_eq_ok.mp h
  rw [edgeOf, Session.nameOf_eq hn, Session.nameOf_eq (lookup_eq_ok.mp hsource)]

theorem edgesInto_eq_ok {s : Session} {w : Wiring} {id : String} {node : Node}
    (hn : s.node? id = some node) {edges : List FlowEdge}
    (h : edgesInto s w id node = .ok edges) : edges = (linksInto s w id).map (edgeOf s id) := by
  have each := mapM_eq_ok.mp h
  rw [linksInto_of_node? hn]
  generalize sortedByPort node _ = links at each
  clear h
  induction each with
  | nil => rfl
  | cons first _ ih => rw [List.map_cons, flowEdge_eq_ok hn first, ih]

theorem mem_linksInto {s : Session} {w : Wiring} {id : String} {l : Link}
    (h : l ∈ linksInto s w id) : ∃ p ∈ w.placed, p.link.target = id ∧ p.link = l := by
  rcases hn : s.node? id with _ | node
  · simp [linksInto, hn] at h
  · rw [linksInto_of_node? hn, sortedByPort, List.mem_mergeSort] at h
    obtain ⟨p, hp, rfl⟩ := List.mem_map.mp h
    obtain ⟨hp, hto⟩ := Wiring.mem_incoming.mp hp
    exact ⟨p, hp, hto, rfl⟩

/-- Reading off an order lists what is emitted for its nodes, and for each of them the connections
into it. -/
theorem emitNodes_spec {s : Session} {w : Wiring} {ids : List String} {nodes : List JsonObject}
    {edges : List FlowEdge} (h : emitNodes s w ids = .ok (nodes, edges)) :
    List.Forall₂ s.EmitsAs (ids.filter s.shows) nodes ∧
      edges = ids.flatMap fun id => (linksInto s w id).map (edgeOf s id) := by
  induction ids generalizing nodes edges with
  | nil =>
    obtain ⟨rfl, rfl⟩ := Prod.mk.inj (Except.ok.inj h)
    exact ⟨.nil, rfl⟩
  | cons id ids ih =>
    obtain ⟨here, into, nodes', edges', ⟨node, hn, hhere, hinto⟩, hrest, rfl, rfl⟩ :=
      emitNodes_cons_eq_ok.mp h
    obtain ⟨hnodes, rfl⟩ := ih hrest
    refine ⟨?_, by rw [List.flatMap_cons, edgesInto_eq_ok hn hinto]⟩
    have hshows : s.shows id = !node.isStructural := by
      unfold Session.shows
      rw [hn]
      rfl
    unfold entries at hhere
    split at hhere
    · next hst =>
      obtain rfl := Except.ok.inj hhere
      rwa [List.filter_cons_of_neg (by simp [hshows, hst]), List.nil_append]
    · next hst =>
      obtain ⟨fields, hfields, rfl⟩ := map_eq_ok.mp hhere
      rw [List.filter_cons_of_pos (by simpa [hshows] using hst)]
      exact .cons ⟨node, hn, hfields⟩ hnodes

end Flattening

namespace Level

/-- The nodes of a level that are left when its blocks have been folded, in order. -/
abbrev remaining (order : List String) (g : Block.Folding) : List String :=
  order.filter g.wiring.contains

/-- What is arranged of a built level are nodes of the level and links between them. -/
theorem mem_of_arrange {graph : EditorGraph} {s t : Session} {w : Wiring} {order : List String}
    (holds : s.Holds graph.nodes) (run : arrange graph s = (.ok (w, order), t)) :
    (∀ id ∈ order, id ∈ graph.nodes.map EditorNode.id) ∧
      ∀ p ∈ w.placed, p.link.source ∈ graph.nodes.map EditorNode.id := by
  obtain ⟨w₀, u, blocks, g, hconnect, hsort, hmatch, hfold, rfl, -⟩ := arrange_eq_ok.mp run
  obtain ⟨re, rfl, scanned⟩ := (ensures_connectAll graph s).of_ok hconnect
  have fresh := fresh_of_holds holds re
  have v := valid_wiring s.registry graph
  have isOrder := v.isOrder_of_topologicalOrder hsort
  have mem : ∀ {id}, id ∈ (wiring s.registry graph).nodes → id ∈ graph.nodes.map EditorNode.id :=
    (Wiring.mem_nodes_wired (ends_of_edges scanned.ends)).mp
  obtain ⟨inherits, -, foldable⟩ := Block.inherits_of_foldAll v isOrder hmatch
    (fun id hid => fresh.members id (mem (isOrder.perm.mem_iff.mp hid))) hfold
  exact ⟨fun id hid => mem (isOrder.perm.mem_iff.mp hid),
    fun p hp => mem (inherits.sub (foldable.valid.source p hp))⟩

/-- All that is done with a level before it is read off: it is built and arranged. -/
def prepare (nested : NestedCompiler) (graph : EditorGraph) : Build (Wiring × List String) := do
  buildAll nested graph
  arrange graph

/-- Once a level is prepared, nothing is missing when it is read off. -/
theorem compile_succeeds {nested : NestedCompiler}
    (behaves : ∀ graph s, Session.Behaves (nested graph) s) {graph : EditorGraph} {s t : Session}
    {w : Wiring} {order : List String} (sound : s.Sound) (closed : s.registry.Closed [])
    (prepared : prepare nested graph s = (.ok (w, order), t)) :
    ∃ flow, compile nested graph s = (.ok flow, t) ∧
      Flattening.emitNodes t w (order.filter w.contains) = .ok (flow.nodes, flow.edges) := by
  obtain ⟨_, built, build, arrangement⟩ := run_bind_eq_ok.mp prepared
  obtain ⟨settled, holds, resources⟩ := (ensures_buildAll behaves graph s).of_ok build
  obtain ⟨settled', -⟩ := (ensures_arrange holds).of_ok arrangement
  obtain ⟨inside, sources⟩ := mem_of_arrange holds arrangement
  have all := settled.trans settled'
  have sound' := (all.sound sound).registry
  have supplies : ∀ id node, t.registry.get? id = some node → t.registry.Supplies node :=
    fun id node hn => Registry.supplies_of_closed sound' (all.closed [] closed) hn
  obtain ⟨rank, ranked⟩ := sound'.ranked
  have known : ∀ id ∈ graph.nodes.map EditorNode.id, t.registry.contains id = true := by
    intro id hid
    obtain ⟨raw, hraw, rfl⟩ := List.mem_map.mp hid
    obtain ⟨-, -, -, node, hnode, -⟩ := holds raw hraw
    exact settled'.registered raw.id (Entries.contains_of_get? hnode)
  have left : ∀ id ∈ order.filter w.contains, t.registry.contains id = true :=
    fun id hid => known id (inside id (List.mem_filter.mp hid).1)
  have declared : ∀ id ∈ graph.resources.map EditorNode.id, t.registry.contains id = true := by
    intro id hid
    obtain ⟨raw, hraw, rfl⟩ := List.mem_map.mp hid
    exact settled'.registered raw.id (resources raw hraw)
  have linked : ∀ p ∈ w.placed, t.registry.contains p.link.source = true :=
    fun p hp => known p.link.source (sources p hp)
  obtain ⟨flow, hflow⟩ := Flattening.flow_succeeds ranked supplies linked left declared
  exact ⟨flow, compile_eq_ok.mpr ⟨built, w, order, build, arrangement, hflow⟩,
    Flattening.nodes_of_flow hflow⟩

namespace Compiled

variable {room : Nat} {graph : EditorGraph} {s t built connected : Session} {flow : Flow}
  {order : List String} {blocks : List Block} {g : Block.Folding}
  (c : Compiled room graph s t flow built connected order blocks g)

include c

theorem left_of_foldAll :
    (wiring built.registry graph).Inherits (Block.pairsAll blocks) g.wiring ∧
      Block.Enclosed order g ∧ Block.Foldable order.idxOf [] g.wiring :=
  Block.inherits_of_foldAll (valid_wiring built.registry graph) c.isOrder c.matched
    (fun id hid => (fresh_of_holds c.holds c.reconnects).members id (c.mem_order.mp hid)) c.folding

theorem inherits : (wiring built.registry graph).Inherits (Block.pairsAll blocks) g.wiring :=
  c.left_of_foldAll.1

theorem valid : g.wiring.Valid := c.left_of_foldAll.2.2.valid

/-- Links between nodes that are left lead forward. -/
theorem forward {a b : String} (h : g.wiring.Joined a b) : order.idxOf a < order.idxOf b :=
  c.left_of_foldAll.2.2.forward a b h

theorem mem_remaining {id : String} : id ∈ remaining order g ↔ id ∈ g.wiring.nodes := by
  rw [List.mem_filter, Wiring.contains, List.contains_iff_mem]
  exact ⟨And.right, fun h => ⟨c.isOrder.perm.mem_iff.mpr (c.inherits.sub h), h⟩⟩

theorem nodup_remaining : (remaining order g).Nodup := c.nodup.filter _

/-- Every node that is left is registered under its own id, as one of the nodes of the level was
built. -/
theorem exists_remaining {id : String} (h : id ∈ remaining order g) :
    ∃ node, t.node? id = some node ∧ node.id = id ∧ node.WellMade := by
  obtain ⟨raw, hraw, rfl⟩ := List.mem_map.mp (c.mem_order.mp (List.mem_filter.mp h).1)
  obtain ⟨made, -, hid, first, node, from_, hnode, hbare⟩ := c.exists_node hraw
  exact ⟨node, hnode, (Node.id_of_bare hbare).symm.trans (from_.id.trans hid),
    from_.wellMade.of_bare hbare⟩

theorem made_of_node? {id : String} (h : id ∈ remaining order g) {node : Node}
    (hn : t.node? id = some node) : node.id = id ∧ node.WellMade := by
  obtain ⟨found, hfound, made⟩ := c.exists_remaining h
  obtain rfl : node = found := Option.some.inj (hn.symm.trans hfound)
  exact made

theorem get?_of_node? {id : String} {node : Node} (hn : t.node? id = some node) :
    g.registry.get? id = some node := by
  rw [← hn, c.final]
  rfl

/-- What is registered in the end was registered when the blocks were matched, but for its
branches. -/
theorem exists_matched {id : String} {node : Node} (hn : t.node? id = some node) :
    ∃ old, connected.registry.get? id = some old ∧ old.bare = node.bare :=
  c.same.exists_of_get? (c.get?_of_node? hn)

/-- What a link knows of its connection. -/
theorem data_arrow {edge : EditorEdge} (h : edge ∈ graph.edges) :
    (arrow built.registry edge).data.formatter = t.formatterOf edge ∧
      (arrow built.registry edge).data.targetHandle = edge.targetHandle := by
  obtain ⟨raw, hraw, hid⟩ := List.mem_map.mp (c.scanned.ends edge h).1
  obtain ⟨-, -, -, -, node, -, hnode, -⟩ := c.exists_node hraw
  have hnode : t.registry.get? edge.source = some node := hid ▸ hnode
  rw [← arrow_of_same c.registered]
  unfold arrow Session.formatterOf Session.node?
  rw [hnode]
  exact ⟨rfl, rfl⟩

/-- No aggregator is left. -/
theorem not_isAggregator {id : String} (h : id ∈ remaining order g) {node : Node}
    (hn : t.node? id = some node) : node.isAggregator = false := by
  have hno : node.isAggregator ≠ true := by
    intro haggregator
    obtain ⟨old, hold, hbare⟩ := c.exists_matched hn
    have hold' : old.isAggregator = true := (Node.isAggregator_of_bare hbare).trans haggregator
    have closing : Block.bracket? connected.registry id = some .closing :=
      Block.bracket?_eq_closing.mpr ⟨old, hold, Node.not_isFork_of_isAggregator hold', hold'⟩
    obtain ⟨e, he, rfl⟩ :=
      Block.exists_pair_of_closing c.matched (List.mem_filter.mp h).1 closing
    exact c.inherits.gone e he (c.mem_remaining.mp h)
  simpa using hno

/-- No node in a branch of a fork of the level is left. -/
theorem not_encloses {id : String} (h : id ∈ remaining order g) (fork : String) :
    ¬ t.Encloses graph fork id := by
  rintro ⟨hfork, node, hn, hm⟩
  exact c.left_of_foldAll.2.1 fork (c.mem_order.mpr hfork) node (c.get?_of_node? hn) id hm
    (c.mem_remaining.mp h)

/-- A flow lists what is emitted for the nodes that are left and the connections between them. -/
theorem reads :
    List.Forall₂ t.EmitsAs ((remaining order g).filter t.shows) flow.nodes ∧
      flow.edges = (remaining order g).flatMap fun id =>
        (Flattening.linksInto t g.wiring id).map (Flattening.edgeOf t id) :=
  Flattening.emitNodes_spec (Flattening.nodes_of_flow c.flow)

/-- A connection of a flow joins two nodes that are left. -/
theorem exists_joined {edge : FlowEdge} (h : edge ∈ flow.edges) :
    ∃ a ∈ remaining order g, ∃ b ∈ remaining order g, g.wiring.Joined a b ∧
      edge.iid = t.nameOf a ∧ edge.oid = t.nameOf b := by
  rw [c.reads.2] at h
  obtain ⟨b, hb, hedge⟩ := List.mem_flatMap.mp h
  obtain ⟨link, hlink, rfl⟩ := List.mem_map.mp hedge
  obtain ⟨p, hp, hto, rfl⟩ := Flattening.mem_linksInto hlink
  exact ⟨p.link.source, c.mem_remaining.mpr (c.valid.source p hp), b, hb, ⟨p, hp, rfl, hto⟩, rfl,
    rfl⟩

/-- Of two nodes that are emitted, the one that a link leaves is listed first. -/
theorem idxOf_shown_lt {a b : String} (ha : a ∈ remaining order g) (shown : t.shows a = true)
    (h : g.wiring.Joined a b) :
    ((remaining order g).filter t.shows).idxOf a < ((remaining order g).filter t.shows).idxOf b :=
  Wiring.idxOf_filter_lt shown (Wiring.idxOf_filter_lt (List.mem_filter.mp ha).2 (c.forward h))

end Compiled

end Level

end WorkflowCompiler
