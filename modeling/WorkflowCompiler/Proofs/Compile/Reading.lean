import WorkflowCompiler.Proofs.Node.Emitting
import WorkflowCompiler.Proofs.Node.Kinds
import WorkflowCompiler.Proofs.Wiring.Slots

/-!
# Reading a level off

A level is read off node by node: each gives its own entry, unless nothing is emitted for it, and
the connections into it.
-/
namespace WorkflowCompiler

namespace Flattening

theorem lookup_eq_ok {s : Session} {id requiredBy : String} {node : Node} :
    lookup s id requiredBy = .ok node ↔ s.node? id = some node := by
  unfold lookup
  rcases s.node? id with _ | found <;> simp

/-- The entries of a node, one or none. -/
def entries (s : Session) (node : Node) : Except CompileError (List JsonObject) :=
  if node.isStructural then .ok [] else (s.emit node).map fun fields => [fields]

/-- The connections into a node, in the order in which they are emitted. -/
def edgesInto (s : Session) (w : Wiring) (id : String) (node : Node) :
    Except CompileError (List FlowEdge) :=
  (sortedByPort node ((w.incoming id).map PlacedLink.link)).mapM (flowEdge s id node)

/-- What is emitted at one place of an order. -/
structure Emitted (s : Session) (w : Wiring) (id : String) (here : List JsonObject)
    (edges : List FlowEdge) : Prop where
  node : ∃ node, s.node? id = some node ∧ entries s node = .ok here ∧
    edgesInto s w id node = .ok edges

theorem emitNodes_cons (s : Session) (w : Wiring) (id : String) (ids : List String) :
    emitNodes s w (id :: ids) = (do
      let node ← lookup s id id
      let here ← entries s node
      let edges ← edgesInto s w id node
      let rest ← emitNodes s w ids
      return (here ++ rest.1, edges ++ rest.2)) := by
  conv => lhs; unfold emitNodes
  unfold entries edgesInto
  rcases lookup s id id with e | node
  · rfl
  · show (if node.isStructural then _ else _) = _
    simp only [bind, Except.bind]
    by_cases hst : node.isStructural = true
    · simp only [hst, if_true]
      rfl
    · simp only [hst]
      rfl

/-- The parts of an order in turn. -/
theorem emitNodes_cons_eq_ok {s : Session} {w : Wiring} {id : String} {ids : List String}
    {nodes : List JsonObject} {edges : List FlowEdge} :
    emitNodes s w (id :: ids) = .ok (nodes, edges) ↔
      ∃ here into nodes' edges', Emitted s w id here into ∧
        emitNodes s w ids = .ok (nodes', edges') ∧ nodes = here ++ nodes' ∧
        edges = into ++ edges' := by
  rw [emitNodes_cons]
  constructor
  · intro h
    obtain ⟨node, hnode, h⟩ := bind_eq_ok.mp h
    obtain ⟨here, hhere, h⟩ := bind_eq_ok.mp h
    obtain ⟨into, hinto, h⟩ := bind_eq_ok.mp h
    obtain ⟨rest, hrest, h⟩ := bind_eq_ok.mp h
    obtain ⟨rfl, rfl⟩ := Prod.mk.inj (pure_eq_ok.mp h)
    exact ⟨here, into, rest.1, rest.2, ⟨node, lookup_eq_ok.mp hnode, hhere, hinto⟩, hrest, rfl,
      rfl⟩
  · rintro ⟨here, into, nodes', edges', ⟨node, hnode, hhere, hinto⟩, hrest, rfl, rfl⟩
    rw [lookup_eq_ok.mpr hnode]
    simp only [bind, Except.bind, hhere, hinto, hrest]
    rfl

/-- Whether an entry stands for the node with this id. -/
def entryOf (id : String) (fields : JsonObject) : Bool :=
  Entries.get? fields "id" = some (.string id)

/-- The entry of a node that is no stand-in carries its id. -/
theorem entryOf_of_emit {s : Session} {node : Node} {fields : JsonObject}
    (visible : node.isStructural = false) (built : node.isFailed = false)
    (h : s.emit node = .ok fields) (id : String) : entryOf id fields = (node.id = id) := by
  unfold Session.emit Registry.emit Registry.emitWithin at h
  rw [if_neg (by simp [visible, built])] at h
  obtain ⟨args, -, h⟩ := bind_eq_ok.mp h
  obtain rfl := pure_eq_ok.mp h
  simp [entryOf, Registry.frame, Entries.get?]

/-- In an order of built nodes, a node has one entry for each place where it stands. -/
theorem countP_emitNodes {s : Session} {w : Wiring} {ids : List String} {nodes : List JsonObject}
    {edges : List FlowEdge} (h : emitNodes s w ids = .ok (nodes, edges))
    (built : ∀ id ∈ ids, ∀ node, s.node? id = some node → node.id = id ∧ node.isFailed = false)
    {id : String} {node : Node} (hn : s.node? id = some node)
    (visible : node.isStructural = false) : nodes.countP (entryOf id) = ids.count id := by
  induction ids generalizing nodes edges with
  | nil =>
    obtain ⟨rfl, -⟩ := Prod.mk.inj (Except.ok.inj h)
    rfl
  | cons other ids ih =>
    obtain ⟨here, into, nodes', edges', ⟨found, hfound, hhere, -⟩, hrest, rfl, -⟩ :=
      emitNodes_cons_eq_ok.mp h
    have hcount := ih hrest fun x hx => built x (List.mem_cons_of_mem _ hx)
    obtain ⟨hid, hbuilt⟩ := built other List.mem_cons_self found hfound
    rw [List.countP_append, hcount, List.count_cons]
    unfold entries at hhere
    split at hhere
    · next hst =>
      obtain rfl := Except.ok.inj hhere
      have hne : other ≠ id := by
        rintro rfl
        obtain rfl : found = node := Option.some.inj (hfound.symm.trans hn)
        simp [visible] at hst
      simp [hne]
    · next hst =>
      obtain ⟨fields, hfields, rfl⟩ := map_eq_ok.mp hhere
      have hentry := entryOf_of_emit (by simpa using hst) hbuilt hfields id
      by_cases he : other = id
      · simp [he, hentry, hid]
        omega
      · simp [he, hentry, hid]

theorem nodes_of_flow {s : Session} {w : Wiring} {order declared : List String} {flow : Flow}
    (h : Flattening.flow s w order declared = .ok flow) :
    emitNodes s w (order.filter w.contains) = .ok (flow.nodes, flow.edges) := by
  unfold Flattening.flow at h
  obtain ⟨parts, hparts, h⟩ := bind_eq_ok.mp h
  obtain ⟨r, -, h⟩ := bind_eq_ok.mp h
  obtain ⟨r', -, h⟩ := bind_eq_ok.mp h
  obtain rfl := pure_eq_ok.mp h
  exact hparts

/-- The connection into a node that one link enters. -/
theorem edgesInto_of_single {s : Session} {w : Wiring} {id : String} (node : Node) {source : Node}
    {p : PlacedLink} (one : w.incoming id = [p]) (hs : s.node? p.link.source = some source) :
    edgesInto s w id node = .ok [⟨emittedId source, emittedId node, p.link.data.formatter⟩] := by
  unfold edgesInto sortedByPort
  rw [one]
  simp only [List.map_cons, List.map_nil, List.mergeSort_singleton, List.mapM_cons, List.mapM_nil]
  unfold flowEdge
  rw [lookup_eq_ok.mpr hs]
  rfl

theorem edgesInto_of_none {s : Session} {w : Wiring} {id : String} (node : Node)
    (none : w.incoming id = []) : edgesInto s w id node = .ok [] := by
  unfold edgesInto sortedByPort
  rw [none]
  simp only [List.map_nil, List.mergeSort_nil]
  rfl

/-- The connections into a node can be read off when the nodes that they leave are known. -/
theorem edgesInto_succeeds {s : Session} {w : Wiring} {id : String} (node : Node)
    (known : ∀ p ∈ w.incoming id, s.registry.contains p.link.source = true) :
    ∃ edges, edgesInto s w id node = .ok edges := by
  refine mapM_succeeds fun l hl => ?_
  rw [sortedByPort, List.mem_mergeSort] at hl
  obtain ⟨p, hp, rfl⟩ := List.mem_map.mp hl
  obtain ⟨source, hsource⟩ := Entries.exists_get?_of_contains (known p hp)
  exact ⟨_, bind_eq_ok.mpr ⟨source, lookup_eq_ok.mpr hsource, rfl⟩⟩

section Succeeds

variable {s : Session} {rank : String → Nat} (ranked : s.registry.RankedBy rank)
  (supplies : ∀ id node, s.registry.get? id = some node → s.registry.Supplies node)

include ranked supplies

theorem emitNodes_succeeds {w : Wiring}
    (sources : ∀ p ∈ w.placed, s.registry.contains p.link.source = true) {ids : List String}
    (known : ∀ id ∈ ids, s.registry.contains id = true) :
    ∃ nodes edges, emitNodes s w ids = .ok (nodes, edges) := by
  induction ids with
  | nil => exact ⟨[], [], rfl⟩
  | cons id ids ih =>
    obtain ⟨nodes, edges, hrest⟩ := ih fun x hx => known x (List.mem_cons_of_mem _ hx)
    obtain ⟨node, hn⟩ := Entries.exists_get?_of_contains (known id List.mem_cons_self)
    obtain ⟨into, hinto⟩ : ∃ into, edgesInto s w id node = .ok into :=
      edgesInto_succeeds node fun p hp => sources p (Wiring.mem_incoming.mp hp).1
    have hhere : ∃ here, entries s node = .ok here := by
      unfold entries
      split
      · exact ⟨[], rfl⟩
      · obtain ⟨fields, hfields⟩ :=
          ranked.emit_succeeds supplies s.options.defaultEnableBackflow hn
        exact ⟨_, map_eq_ok.mpr ⟨fields, hfields, rfl⟩⟩
    obtain ⟨here, hhere⟩ := hhere
    exact ⟨here ++ nodes, into ++ edges,
      emitNodes_cons_eq_ok.mpr ⟨here, into, nodes, edges, ⟨node, hn, hhere, hinto⟩, hrest, rfl, rfl⟩⟩

theorem emitDeclared_succeeds (r : Resources) {id : String}
    (known : s.registry.contains id = true) : ∃ r', emitDeclared s r id = .ok r' := by
  obtain ⟨resource, hn⟩ := Entries.exists_get?_of_contains known
  obtain ⟨fields, hfields⟩ := ranked.emit_succeeds supplies s.options.defaultEnableBackflow hn
  unfold emitDeclared
  rw [lookup_eq_ok.mpr hn]
  simp only [bind, Except.bind]
  split
  · exact ⟨_, bind_eq_ok.mpr ⟨fields, hfields, rfl⟩⟩
  · exact ⟨r, rfl⟩

theorem emitUsed_succeeds (r : Resources) {id : String}
    (known : s.registry.contains id = true) : ∃ r', emitUsed s r id = .ok r' := by
  obtain ⟨node, hn⟩ := Entries.exists_get?_of_contains known
  obtain ⟨resources, hresources⟩ :=
    ranked.resourcesOf_succeeds supplies s.options.defaultEnableBackflow hn
  exact ⟨_, bind_eq_ok.mpr ⟨node, lookup_eq_ok.mpr hn, bind_eq_ok.mpr ⟨resources, hresources, rfl⟩⟩⟩

/-- A level is read off when nothing that is left of it or declared in it is missing. -/
theorem flow_succeeds {w : Wiring}
    (sources : ∀ p ∈ w.placed, s.registry.contains p.link.source = true)
    {order declared : List String}
    (left : ∀ id ∈ order.filter w.contains, s.registry.contains id = true)
    (resources : ∀ id ∈ declared, s.registry.contains id = true) :
    ∃ flow, Flattening.flow s w order declared = .ok flow := by
  obtain ⟨nodes, edges, h⟩ := emitNodes_succeeds ranked supplies sources left
  obtain ⟨r, hr⟩ := foldlM_succeeds (fun r id hid =>
    emitDeclared_succeeds ranked supplies r (resources id hid)) {}
  obtain ⟨r', hr'⟩ := foldlM_succeeds (fun r id hid =>
    emitUsed_succeeds ranked supplies r (left id hid)) r
  refine ⟨⟨nodes, edges, r'.emitted⟩, ?_⟩
  unfold Flattening.flow
  exact bind_eq_ok.mpr ⟨_, h, bind_eq_ok.mpr ⟨r, hr, bind_eq_ok.mpr ⟨r', hr', rfl⟩⟩⟩

end Succeeds

end Flattening

end WorkflowCompiler
