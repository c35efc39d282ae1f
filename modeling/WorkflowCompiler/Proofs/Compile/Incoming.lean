import WorkflowCompiler.Proofs.Compile.Remaining

/-!
# Connections into a node

The connections into each node of a flow: those on declared ports in the order of the ports, then
the others, and where that leaves a choice by position. A connection that leaves a node that is left
keeps its position in the editor. One that leaves an aggregator arrives from the fork, and its link
has taken a slot that was free then, so it gets the position of a connection that is gone.
-/
namespace WorkflowCompiler

section Ranked

variable {α : Type} (rank : α → Nat)

theorem rank_le_trans (a b c : α) (hab : decide (rank a ≤ rank b) = true)
    (hbc : decide (rank b ≤ rank c) = true) : decide (rank a ≤ rank c) = true := by
  rw [decide_eq_true_eq] at *
  exact hab.trans hbc

theorem rank_le_total (a b : α) :
    (decide (rank a ≤ rank b) || decide (rank b ≤ rank a)) = true := by
  simpa using Nat.le_total (rank a) (rank b)

/-- A stable sort leaves the elements of one rank as they are. -/
theorem filter_mergeSort (xs : List α) (k : Nat) :
    (xs.mergeSort fun a b => rank a ≤ rank b).filter (rank · = k) = xs.filter (rank · = k) := by
  have hrank : ∀ {a}, a ∈ xs.filter (rank · = k) → rank a = k := fun ha => by
    simpa using (List.mem_filter.mp ha).2
  have level : (xs.filter (rank · = k)).Pairwise fun a b => decide (rank a ≤ rank b) = true :=
    List.pairwise_of_forall_mem_list fun a ha b hb => by simp [hrank ha, hrank hb]
  have hsub := (List.sublist_mergeSort (rank_le_trans rank) (rank_le_total rank) level
    List.filter_sublist).filter (rank · = k)
  rw [List.filter_filter] at hsub
  simp only [Bool.and_self] at hsub
  exact (hsub.eq_of_length ((List.mergeSort_perm xs _).filter _).length_eq.symm).symm

/-- A stable sort keeps any order among elements of one rank. -/
theorem pairwise_mergeSort_of_pairwise {R : α → α → Prop} {xs : List α} (h : xs.Pairwise R) :
    (xs.mergeSort fun a b => rank a ≤ rank b).Pairwise fun a b =>
      rank a < rank b ∨ rank a = rank b ∧ R a b := by
  have sorted := List.pairwise_mergeSort (rank_le_trans rank) (rank_le_total rank) xs
  rw [List.pairwise_iff_forall_sublist] at h sorted ⊢
  intro a b hab
  have hle : rank a ≤ rank b := by simpa using sorted hab
  rcases Nat.lt_or_eq_of_le hle with hlt | he
  · exact .inl hlt
  · refine .inr ⟨he, h ?_⟩
    have hfilter := hab.filter (rank · = rank a)
    rw [filter_mergeSort] at hfilter
    simpa [he] using hfilter.trans List.filter_sublist

end Ranked

namespace Node

/-- The position of the port by which a connection enters a node; without a declared port it comes
after all ports. -/
def portPlace (node : Node) (handle : Option String) : Nat :=
  (node.portIndex? handle).getD node.inputPorts.length

end Node

/-- A connection as it arrives at a node: its position in the editor, the node that it arrives from,
and the position by which it is sorted. -/
structure Arrival where
  edge : EditorEdge
  index : Nat
  source : String
  place : Nat

/-- The connection of a flow that an arrival at a node becomes. -/
def Arrival.flowEdge (s : Session) (id : String) (a : Arrival) : FlowEdge :=
  ⟨s.nameOf a.source, s.nameOf id, s.formatterOf a.edge⟩

/-- What arrives at a node, `left` being the nodes that are left and `pairs` the forks with their
aggregators. -/
inductive Arrives (graph : EditorGraph) (pairs : List (String × String)) (left : List String)
    (id : String) : Arrival → Prop
  /-- A connection from a node that is left keeps its position. -/
  | own {edge : EditorEdge} {i : Nat} (there : graph.edges[i]? = some edge)
      (target : edge.target = id) (source : edge.source ∈ left) :
      Arrives graph pairs left id ⟨edge, i, edge.source, i⟩
  /-- One from an aggregator arrives from the fork, and no connection between nodes that are left
  has the position that it gets. -/
  | handed {edge : EditorEdge} {i place : Nat} {fork : String}
      (there : graph.edges[i]? = some edge) (target : edge.target = id)
      (pair : (fork, edge.source) ∈ pairs) (source : fork ∈ left)
      (freed : ∀ other, graph.edges[place]? = some other →
        other.source ∉ left ∨ other.target ∉ left) :
      Arrives graph pairs left id ⟨edge, i, fork, place⟩

/-- All that arrives at a node, in order. Of the connections that a fork takes over from its
aggregator, those that come to the same stand for each other. -/
structure Incoming (graph : EditorGraph) (pairs : List (String × String)) (left : List String)
    (s : Session) (node : Node) (arrivals : List Arrival) : Prop where
  each : ∀ a ∈ arrivals, Arrives graph pairs left node.id a
  own : ∀ i edge, graph.edges[i]? = some edge → edge.target = node.id → edge.source ∈ left →
    ⟨edge, i, edge.source, i⟩ ∈ arrivals
  handed : ∀ edge ∈ graph.edges, edge.target = node.id → ∀ fork ∈ left,
    (fork, edge.source) ∈ pairs → ∃ a ∈ arrivals, a.source = fork ∧
      s.formatterOf a.edge = s.formatterOf edge ∧ a.edge.targetHandle = edge.targetHandle
  once : (arrivals.map Arrival.index).Nodup
  ordered : arrivals.Pairwise fun a b =>
    node.portPlace a.edge.targetHandle < node.portPlace b.edge.targetHandle ∨
      node.portPlace a.edge.targetHandle = node.portPlace b.edge.targetHandle ∧ a.place < b.place

/-- A link of a folded wiring and what arrives by it. -/
structure Carries (graph : EditorGraph) (pairs : List (String × String)) (left : List String)
    (s : Session) (p : PlacedLink) (a : Arrival) : Prop where
  arrives : Arrives graph pairs left p.link.target a
  source : a.source = p.link.source
  place : a.place = p.slot
  formatter : p.link.data.formatter = s.formatterOf a.edge
  handle : p.link.data.targetHandle = a.edge.targetHandle

namespace Arrives

variable {graph : EditorGraph} {pairs : List (String × String)} {left : List String}
  {id : String} {a : Arrival}

theorem there (h : Arrives graph pairs left id a) : graph.edges[a.index]? = some a.edge := by
  cases h <;> assumption

theorem target (h : Arrives graph pairs left id a) : a.edge.target = id := by
  cases h <;> assumption

theorem own_or_handed (h : Arrives graph pairs left id a) :
    (a.edge.source ∈ left ∧ a = ⟨a.edge, a.place, a.edge.source, a.place⟩) ∨
      ((a.source, a.edge.source) ∈ pairs ∧ ∀ other, graph.edges[a.place]? = some other →
        other.source ∉ left ∨ other.target ∉ left) := by
  cases h with
  | own there target source => exact .inl ⟨source, rfl⟩
  | handed there target pair source freed => exact .inr ⟨pair, freed⟩

end Arrives

theorem Carries.way {graph : EditorGraph} {pairs : List (String × String)} {left : List String}
    {s : Session} {p : PlacedLink} {a : Arrival} (h : Carries graph pairs left s p a) :
    p.way = (a.edge.target, s.formatterOf a.edge, a.edge.targetHandle) := by
  rw [PlacedLink.way, h.arrives.target, h.formatter, h.handle]

namespace Flattening

/-- The links into a node, sorted by port, with their slots. -/
def placedInto (w : Wiring) (id : String) (node : Node) : List PlacedLink :=
  (w.incoming id).mergeSort fun p q =>
    node.portPlace p.link.data.targetHandle ≤ node.portPlace q.link.data.targetHandle

theorem linksInto_eq {s : Session} {w : Wiring} {id : String} {node : Node}
    (hn : s.node? id = some node) :
    linksInto s w id = (placedInto w id node).map PlacedLink.link := by
  rw [linksInto_of_node? hn]
  symm
  exact List.map_mergeSort fun _ _ _ _ => rfl

theorem mem_placedInto {w : Wiring} {id : String} {node : Node} {p : PlacedLink} :
    p ∈ placedInto w id node ↔ p ∈ w.placed ∧ p.link.target = id :=
  List.mem_mergeSort.trans Wiring.mem_incoming

theorem nodup_placedInto (w : Wiring) (id : String) (node : Node) :
    (placedInto w id node).Nodup := by
  refine (List.mergeSort_perm _ _).nodup_iff.mpr (List.Nodup.filter _ ?_)
  exact w.pairwise_placed.imp fun h he =>
    absurd (congrArg PlacedLink.slot he) (Nat.ne_of_lt h)

/-- Where the port of a link leaves a choice, links are sorted by slot. -/
theorem pairwise_placedInto (w : Wiring) (id : String) (node : Node) :
    (placedInto w id node).Pairwise fun p q =>
      node.portPlace p.link.data.targetHandle < node.portPlace q.link.data.targetHandle ∨
        node.portPlace p.link.data.targetHandle = node.portPlace q.link.data.targetHandle ∧
          p.slot < q.slot :=
  pairwise_mergeSort_of_pairwise (fun p => node.portPlace p.link.data.targetHandle)
    (w.pairwise_placed.filter _)

/-- Where all links into a node have the same handle, only their slots count. -/
theorem linksInto_of_handle {s : Session} {w : Wiring} {id : String} {node : Node}
    (hn : s.node? id = some node) {handle : Option String}
    (same : ∀ p ∈ w.incoming id, p.link.data.targetHandle = handle) :
    linksInto s w id = (w.incoming id).map PlacedLink.link := by
  rw [linksInto_eq hn, placedInto, List.mergeSort_of_pairwise]
  exact List.pairwise_of_forall_mem_list fun p hp q hq => by simp [same p hp, same q hq]

/-- The connections of a flow to some name are those into the nodes of that name. -/
theorem filter_oid (s : Session) (w : Wiring) (ids : List String) (name : String) :
    (ids.flatMap fun id => (linksInto s w id).map (edgeOf s id)).filter (fun e => e.oid = name) =
      (ids.filter fun id => s.nameOf id = name).flatMap fun id =>
        (linksInto s w id).map (edgeOf s id) := by
  induction ids with
  | nil => rfl
  | cons id ids ih =>
    have honly : ((linksInto s w id).map (edgeOf s id)).filter (fun e => e.oid = name) =
        if s.nameOf id = name then (linksInto s w id).map (edgeOf s id) else [] := by
      split <;> simp [edgeOf, *]
    rw [List.flatMap_cons, List.filter_append, ih, honly, List.filter_cons]
    by_cases he : s.nameOf id = name <;> simp [he]

end Flattening

namespace Level

/-- The links of a wiring before folding are the connections in their positions. -/
theorem mem_placed_wiring {r : Registry} {graph : EditorGraph} {s : Session}
    (scanned : Scanned graph s) {p : PlacedLink} :
    p ∈ (wiring r graph).placed ↔ ∃ edge, graph.edges[p.slot]? = some edge ∧
      p.link = ⟨edge.source, edge.target, (arrow r edge).data, p.slot⟩ := by
  obtain ⟨slot, link⟩ := p
  rw [wiring, Wiring.placed_wired (ends_of_edges scanned.ends)]
  simp only [List.mem_map, List.mem_zipIdx_iff_getElem?, Prod.exists, PlacedLink.mk.injEq,
    List.getElem?_map, Option.map_eq_some_iff]
  constructor
  · rintro ⟨-, i, ⟨edge, hedge, rfl⟩, rfl, rfl⟩
    exact ⟨edge, hedge, rfl⟩
  · rintro ⟨edge, hedge, rfl⟩
    exact ⟨_, slot, ⟨edge, hedge, rfl⟩, rfl, rfl⟩

namespace Compiled

variable {room : Nat} {graph : EditorGraph} {s t built connected : Session} {flow : Flow}
  {order : List String} {blocks : List Block} {g : Block.Folding}
  (c : Compiled room graph s t flow built connected order blocks g)

include c

/-- A connection between nodes that are left has its link still. -/
theorem placed_own {edge : EditorEdge} {i : Nat} (there : graph.edges[i]? = some edge)
    (source : edge.source ∈ remaining order g) (target : edge.target ∈ remaining order g) :
    ⟨i, edge.source, edge.target, (arrow built.registry edge).data, i⟩ ∈ g.wiring.placed :=
  c.inherits.keeps _ ((mem_placed_wiring c.scanned).mpr ⟨edge, there, rfl⟩)
    (c.mem_remaining.mp source) (c.mem_remaining.mp target)

/-- A link that folding has added stands where no connection between nodes that are left stands. -/
theorem freed_of_new {p : PlacedLink} (hp : p ∈ g.wiring.placed)
    (new : p ∉ (wiring built.registry graph).placed) :
    ∀ other, graph.edges[p.slot]? = some other →
      other.source ∉ remaining order g ∨ other.target ∉ remaining order g := by
  intro other hother
  by_contra hleft
  rw [not_or, not_not, not_not] at hleft
  have hstays := c.placed_own hother hleft.1 hleft.2
  have he := Wiring.eq_of_slot_eq hstays hp rfl
  exact new (he ▸ (mem_placed_wiring c.scanned).mpr ⟨other, hother, rfl⟩)

/-- Every link that is left carries a connection. -/
theorem exists_carried {p : PlacedLink} (hp : p ∈ g.wiring.placed) :
    ∃ a, Carries graph (Block.pairsAll blocks) (remaining order g) t p a := by
  have hsource := c.mem_remaining.mpr (c.valid.source p hp)
  by_cases hold : p ∈ (wiring built.registry graph).placed
  · obtain ⟨edge, there, hlink⟩ := (mem_placed_wiring c.scanned).mp hold
    obtain ⟨hformatter, hhandle⟩ := c.data_arrow (List.mem_of_getElem? there)
    rw [hlink] at hsource
    refine ⟨⟨edge, p.slot, edge.source, p.slot⟩, .own there ?_ hsource, ?_, rfl, ?_, ?_⟩ <;>
      simp [hlink, hformatter, hhandle]
  · obtain ⟨⟨fork, stop⟩, pair, q, hq, harrow⟩ := (c.inherits.comes p hp).resolve_left hold
    obtain ⟨hq, hstop⟩ := Wiring.mem_outgoing.mp hq
    obtain ⟨edge, there, hlink⟩ := (mem_placed_wiring c.scanned).mp hq
    obtain ⟨hformatter, hhandle⟩ := c.data_arrow (List.mem_of_getElem? there)
    obtain ⟨hfork, hway⟩ := Wiring.way_of_handed harrow
    obtain ⟨hto, hf, hh⟩ := PlacedLink.way_eq_iff.mp hway.symm
    rw [hlink] at hstop hto hf hh
    dsimp only at hstop hfork
    subst hstop hfork
    refine ⟨⟨edge, q.slot, p.link.source, p.slot⟩, ?_, rfl, rfl, ?_, ?_⟩
    · exact .handed there hto pair hsource (c.freed_of_new hp hold)
    · exact hf.symm.trans hformatter
    · exact hh.symm.trans hhandle

/-- Two links into a node carry different connections. -/
theorem eq_of_index_eq {p q : PlacedLink} {a b : Arrival} (hp : p ∈ g.wiring.placed)
    (hq : q ∈ g.wiring.placed)
    (ha : Carries graph (Block.pairsAll blocks) (remaining order g) t p a)
    (hb : Carries graph (Block.pairsAll blocks) (remaining order g) t q b)
    (h : a.index = b.index) : p = q := by
  have same : a.edge = b.edge := by
    have hthere := ha.arrives.there
    rw [h, hb.arrives.there] at hthere
    exact (Option.some.inj hthere).symm
  have gone : ∀ {fork stop}, (fork, stop) ∈ Block.pairsAll blocks → stop ∉ remaining order g :=
    fun pair hin => c.inherits.gone _ pair (c.mem_remaining.mp hin)
  rcases ha.arrives.own_or_handed with ⟨left, own⟩ | ⟨pair, freed⟩ <;>
    rcases hb.arrives.own_or_handed with ⟨left', own'⟩ | ⟨pair', -⟩
  · refine Wiring.eq_of_slot_eq hp hq ?_
    have hindex : a.index = a.place := congrArg Arrival.index own
    have hindex' : b.index = b.place := congrArg Arrival.index own'
    rw [← ha.place, ← hb.place, ← hindex, ← hindex', h]
  · exact absurd (same ▸ left) (gone pair')
  · exact absurd (same ▸ left') (gone pair)
  · -- the two leave one fork, which takes over one connection of each way only
    have new : p ∉ (wiring built.registry graph).placed := by
      intro hold
      obtain ⟨other, hother, hlink⟩ := (mem_placed_wiring c.scanned).mp hold
      have hsource := c.mem_remaining.mpr (c.valid.source p hp)
      have htarget := c.mem_remaining.mpr (c.valid.target p hp)
      rw [hlink] at hsource htarget
      exact (freed other (ha.place ▸ hother)).elim (· hsource) (· htarget)
    have hfork : q.link.source = p.link.source := by
      rw [← ha.source, ← hb.source]
      exact (Prod.mk.inj (Block.eq_of_stop_eq c.nodup c.matched pair pair'
        (congrArg EditorEdge.source same))).1.symm
    refine (c.inherits.apart p hp new q (Wiring.mem_outgoing.mpr ⟨hq, hfork⟩) ?_).symm
    rw [ha.way, hb.way, same]

/-- Some link carries a connection between nodes that are left, in its position. -/
theorem exists_own {edge : EditorEdge} {i : Nat} (there : graph.edges[i]? = some edge)
    (source : edge.source ∈ remaining order g) (target : edge.target ∈ remaining order g) :
    ∃ p ∈ g.wiring.placed, p.link.target = edge.target ∧
      ∀ a, Carries graph (Block.pairsAll blocks) (remaining order g) t p a →
        a = ⟨edge, i, edge.source, i⟩ := by
  refine ⟨_, c.placed_own there source target, rfl, fun a carries => ?_⟩
  rcases carries.arrives.own_or_handed with ⟨-, hown⟩ | ⟨-, freed⟩
  · have hindex : a.index = i := (congrArg Arrival.index hown).trans carries.place
    have hedge : a.edge = edge :=
      Option.some.inj ((hindex ▸ carries.arrives.there).symm.trans there)
    rw [hown, carries.place, hedge]
  · exact ((freed edge (carries.place ▸ there)).elim (· source) (· target)).elim

/-- Some link of the fork carries what stands for a connection of its aggregator. -/
theorem exists_handed {edge : EditorEdge} (hedge : edge ∈ graph.edges)
    (target : edge.target ∈ remaining order g) {fork : String}
    (left : fork ∈ remaining order g) (pair : (fork, edge.source) ∈ Block.pairsAll blocks) :
    ∃ p ∈ g.wiring.placed, p.link.target = edge.target ∧
      ∀ a, Carries graph (Block.pairsAll blocks) (remaining order g) t p a →
        a.source = fork ∧ t.formatterOf a.edge = t.formatterOf edge ∧
          a.edge.targetHandle = edge.targetHandle := by
  obtain ⟨i, there⟩ := List.mem_iff_getElem?.mp hedge
  let q : PlacedLink := ⟨i, edge.source, edge.target, (arrow built.registry edge).data, i⟩
  have hq : q ∈ (wiring built.registry graph).outgoing edge.source :=
    Wiring.mem_outgoing.mpr ⟨(mem_placed_wiring c.scanned).mpr ⟨edge, there, rfl⟩, rfl⟩
  obtain ⟨p, hp, hway⟩ := c.inherits.covers _ pair (c.mem_remaining.mp left) q hq
    (c.mem_remaining.mp target)
  obtain ⟨hp, hsource⟩ := Wiring.mem_outgoing.mp hp
  obtain ⟨hto, hformatter, hhandle⟩ := PlacedLink.way_eq_iff.mp hway
  obtain ⟨hf, hh⟩ := c.data_arrow hedge
  refine ⟨p, hp, hto, fun a carries => ⟨carries.source.trans hsource, ?_, ?_⟩⟩
  · rw [← carries.formatter, hformatter, hf]
  · rw [← carries.handle, hhandle, hh]

/-- What a node's links carry is all that arrives at it. -/
theorem incoming {id : String} (left : id ∈ remaining order g) {node : Node} (hid : node.id = id)
    {origin : PlacedLink → Arrival}
    (carries : ∀ p ∈ g.wiring.placed,
      Carries graph (Block.pairsAll blocks) (remaining order g) t p (origin p)) :
    Incoming graph (Block.pairsAll blocks) (remaining order g) t node
      ((Flattening.placedInto g.wiring id node).map origin) := by
  subst hid
  have here : ∀ {p}, p ∈ Flattening.placedInto g.wiring node.id node →
      p.link.target = node.id ∧ p ∈ g.wiring.placed ∧
        Carries graph (Block.pairsAll blocks) (remaining order g) t p (origin p) := fun h =>
    have ⟨hp, htarget⟩ := Flattening.mem_placedInto.mp h
    ⟨htarget, hp, carries _ hp⟩
  have arrival : ∀ {p}, p ∈ g.wiring.placed → p.link.target = node.id →
      origin p ∈ (Flattening.placedInto g.wiring node.id node).map origin := fun hp hto =>
    List.mem_map_of_mem (Flattening.mem_placedInto.mpr ⟨hp, hto⟩)
  refine ⟨?_, ?_, ?_, ?_, ?_⟩
  · rw [List.forall_mem_map]
    intro p hp
    obtain ⟨htarget, -, hcarries⟩ := here hp
    exact htarget ▸ hcarries.arrives
  · intro i edge there htarget hsource
    obtain ⟨p, hp, hto, hown⟩ := c.exists_own there hsource (htarget ▸ left)
    exact hown _ (carries p hp) ▸ arrival hp (hto.trans htarget)
  · intro edge hedge htarget fork hfork pair
    obtain ⟨p, hp, hto, hhanded⟩ := c.exists_handed hedge (htarget ▸ left) hfork pair
    exact ⟨origin p, arrival hp (hto.trans htarget), hhanded _ (carries p hp)⟩
  · rw [List.map_map]
    refine (Flattening.nodup_placedInto _ _ _).map_on fun p hp q hq h => ?_
    obtain ⟨-, hp, hcarries⟩ := here hp
    obtain ⟨-, hq, hcarries'⟩ := here hq
    exact c.eq_of_index_eq hp hq hcarries hcarries' h
  · refine List.pairwise_map.mpr ((Flattening.pairwise_placedInto _ _ _).imp_of_mem ?_)
    intro p q hp hq h
    obtain ⟨-, -, hcarries⟩ := here hp
    obtain ⟨-, -, hcarries'⟩ := here hq
    rwa [← hcarries.handle, ← hcarries'.handle, hcarries.place, hcarries'.place]

/-- The connections of a flow are, node by node, what arrives there. -/
theorem exists_arrivals : ∃ arrivals : String → List Arrival,
    flow.edges = (remaining order g).flatMap (fun id => (arrivals id).map (Arrival.flowEdge t id)) ∧
      ∀ id ∈ remaining order g, ∃ node, t.node? id = some node ∧
        Incoming graph (Block.pairsAll blocks) (remaining order g) t node (arrivals id) := by
  have : Nonempty Arrival := ⟨⟨⟨"", "", none, none, none, none, []⟩, 0, "", 0⟩⟩
  choose! origin carries using fun p (hp : p ∈ g.wiring.placed) => c.exists_carried hp
  refine ⟨fun id => ((t.node? id).map fun node =>
    (Flattening.placedInto g.wiring id node).map origin).getD [], ?_, fun id hid => ?_⟩
  · rw [c.reads.2]
    refine List.flatMap_congr fun id hid => ?_
    obtain ⟨node, hnode, -⟩ := c.exists_remaining hid
    dsimp only
    rw [Flattening.linksInto_eq hnode, hnode, Option.map_some, Option.getD_some, List.map_map,
      List.map_map]
    refine List.map_congr_left fun p hp => ?_
    have hcarries := carries p (Flattening.mem_placedInto.mp hp).1
    simp only [Function.comp, Flattening.edgeOf, Arrival.flowEdge, hcarries.source,
      hcarries.formatter]
  · obtain ⟨node, hnode, hid', -⟩ := c.exists_remaining hid
    refine ⟨node, hnode, ?_⟩
    dsimp only
    rw [hnode]
    exact c.incoming hid hid' carries

end Compiled

/-- A flow lists the connections into each of its nodes by port and then by position. A connection
between nodes that are left has its position in the editor, one from an aggregator the position of a
connection that folding has taken away, or one behind all others. -/
theorem connections_arrive {room : Nat} {graph : EditorGraph} {s t : Session} {flow : Flow}
    (run : compile (nestedCompiler room) graph s = (.ok flow, t)) :
    ∃ built connected order blocks g,
      Compiled room graph s t flow built connected order blocks g ∧
      List.Forall₂ t.EmitsAs ((remaining order g).filter t.shows) flow.nodes ∧
      ∃ arrivals : String → List Arrival,
        flow.edges =
          (remaining order g).flatMap (fun id => (arrivals id).map (Arrival.flowEdge t id)) ∧
        ∀ id ∈ remaining order g, ∃ node, t.node? id = some node ∧
          Incoming graph (Block.pairsAll blocks) (remaining order g) t node (arrivals id) := by
  obtain ⟨built, connected, order, blocks, g, c⟩ := compiled_of_compile run
  exact ⟨built, connected, order, blocks, g, c, c.reads.1, c.exists_arrivals⟩

/-- A graph in which a connection to `j` is listed before that of an aggregator, which its fork
takes over. -/
def lateFold : EditorGraph where
  nodes := [bareNode "s" "start", bareNode "f" "ifs", bareNode "a" "formatter",
    bareNode "g" "aggregator", bareNode "x" "formatter", bareNode "j" "formatter",
    bareNode "e" "end"]
  edges := [{ source := "s", target := "f" }, { source := "s", target := "x" },
    { source := "f", target := "a", sourceHandle := some "true" },
    { source := "a", target := "g" },
    { source := "f", target := "g", sourceHandle := some "false" },
    { source := "x", target := "j" }, { source := "g", target := "j" },
    { source := "j", target := "e" }]

/-- `lateFold` compiles, and of the connections into `j` its flow lists that from the fork first. -/
theorem compile_lateFold :
    ∃ flow t, compile (nestedCompiler 16) lateFold {} = (.ok flow, t) ∧
      flow.edges.filter (fun e => e.oid = "j") = [⟨"f", "j", none⟩, ⟨"x", "j", none⟩] ∧
      t.nameOf "x" = "x" := by
  have links : (prepare (nestedCompiler 16) lateFold {}).1.toOption.map (·.1.incoming "j") =
      some [⟨4, "f", "j", {}, 8⟩, ⟨5, "x", "j", {}, 5⟩] := by decide +kernel
  have left : (prepare (nestedCompiler 16) lateFold {}).1.toOption.map
      (fun p => p.2.filter p.1.contains) = some ["s", "f", "x", "j", "e"] := by decide +kernel
  have names : ["s", "f", "x", "j", "e"].map (prepare (nestedCompiler 16) lateFold {}).2.nameOf =
      ["__start__", "f", "x", "j", "__end__"] := by decide +kernel
  have known : (prepare (nestedCompiler 16) lateFold {}).2.registry.contains "j" = true := by
    decide +kernel
  rcases prepared : prepare (nestedCompiler 16) lateFold {} with ⟨e | ⟨w, order⟩, t⟩
  · rw [prepared] at left
    cases left
  rw [prepared] at links left names known
  have links : w.incoming "j" = _ := Option.some.inj links
  have left : order.filter w.contains = _ := Option.some.inj left
  simp only [List.map_cons, List.map_nil, List.cons.injEq] at names
  obtain ⟨hs, hf, hx, hj, he, -⟩ := names
  obtain ⟨node, hn⟩ := Entries.exists_get?_of_contains known
  obtain ⟨flow, hflow, hread⟩ := compile_succeeds (behaves_nestedCompiler 16)
    (Session.sound_fresh _ _) (Registry.closed_nil []) prepared
  refine ⟨flow, t, hflow, ?_, hx⟩
  have same : ∀ p ∈ w.incoming "j", p.link.data.targetHandle = none := by simp [links]
  have into : Flattening.linksInto t w "j" = (w.incoming "j").map PlacedLink.link :=
    Flattening.linksInto_of_handle hn same
  rw [(Flattening.emitNodes_spec hread).2, left, Flattening.filter_oid]
  simp [hs, hf, hx, hj, he, into, links, Flattening.edgeOf]

theorem connections_arrive_lateFold :
    ∃ flow t, compile (nestedCompiler 16) lateFold {} = (.ok flow, t) ∧
      ∃ built connected order blocks g,
        Compiled 16 lateFold {} t flow built connected order blocks g ∧
        List.Forall₂ t.EmitsAs ((remaining order g).filter t.shows) flow.nodes ∧
        ∃ arrivals : String → List Arrival,
          flow.edges =
            (remaining order g).flatMap (fun id => (arrivals id).map (Arrival.flowEdge t id)) ∧
          ∀ id ∈ remaining order g, ∃ node, t.node? id = some node ∧
            Incoming lateFold (Block.pairsAll blocks) (remaining order g) t node
              (arrivals id) := by
  obtain ⟨flow, t, run, -⟩ := compile_lateFold
  exact ⟨flow, t, run, connections_arrive run⟩

/-- The connection that the fork takes over overtakes one that is listed before it. -/
theorem late_fold_overtakes :
    ∃ flow t, compile (nestedCompiler 16) lateFold {} = (.ok flow, t) ∧
      ¬ ∃ arrivals : List Arrival,
        flow.edges.filter (fun e => e.oid = "j") = arrivals.map (Arrival.flowEdge t "j") ∧
        (∀ a ∈ arrivals, lateFold.edges[a.index]? = some a.edge ∧ a.edge.target = "j" ∧
          (a.source = a.edge.source ∨ (a.source, a.edge.source) = ("f", "g"))) ∧
        arrivals.Pairwise fun a b => a.index < b.index := by
  obtain ⟨flow, t, run, hedges, name⟩ := compile_lateFold
  refine ⟨flow, t, run, ?_⟩
  rintro ⟨arrivals, hemits, each, rising⟩
  rw [hedges] at hemits
  obtain ⟨a, b, rfl⟩ : ∃ a b, arrivals = [a, b] :=
    List.length_eq_two.mp (by simpa using (congrArg List.length hemits).symm)
  -- two connections enter `j`, and the first of them comes from `x`
  have enter : ∀ i < 8, ∀ edge ∈ lateFold.edges[i]?, edge.target = "j" →
      (i = 5 ∧ edge.source = "x") ∨ i = 6 := by decide +kernel
  have bound : ∀ {i edge}, lateFold.edges[i]? = some edge → i < 8 := fun there =>
    (List.getElem?_eq_some_iff.mp there).1
  obtain ⟨there, target, origin⟩ := each a (by simp)
  obtain ⟨there', target', -⟩ := each b (by simp)
  have hlt : a.index < b.index := by simpa using rising
  have hfirst : t.nameOf a.source = "f" := (congrArg FlowEdge.iid (List.cons.inj hemits).1).symm
  have hx : a.edge.source = "x" := by
    rcases enter _ (bound there) _ there target with ⟨-, hx⟩ | ha
    · exact hx
    · rcases enter _ (bound there') _ there' target' with ⟨hb, -⟩ | hb <;> omega
  have hsource : a.source = "x" := by simpa [hx] using origin
  rw [hsource, name] at hfirst
  exact absurd hfirst (by decide)

end Level

end WorkflowCompiler
