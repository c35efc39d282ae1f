import WorkflowCompiler.Proofs.Compile.Places
import WorkflowCompiler.Proofs.Node.Checking

/-!
# Failures show

A stand-in is emitted as an empty mapping, which nothing can run. Wherever the stand-in is, the
mapping around it cannot run either: the fork that takes it in, the sub-graph that embeds its level,
and so on outwards up to the flow of the whole graph.
-/
namespace WorkflowCompiler

open Step

/-- Whether a node cannot run by itself: it is a stand-in, or embeds a flow that cannot run. -/
def Node.Broken (node : Node) : Prop :=
  node.isFailed = true ∨
    ∃ flavor compiled, node.body = .subgraph flavor compiled ∧ compiled.canRun = false

namespace Node.Broken

variable {node other : Node} (h : node.Broken)

include h

theorem visible : node.isStructural = false := by
  unfold Node.isStructural
  rcases h with h | ⟨flavor, compiled, h, -⟩
  · unfold Node.isFailed at h
    cases hb : node.body with
    | empty => simp [hb, NodeBody.isFailed] at h
    | _ => rfl
  · rw [h]
    rfl

theorem of_bare (same : node.bare = other.bare) : other.Broken := by
  refine h.imp (fun h => (Node.isFailed_of_bare same).symm.trans h) ?_
  rintro ⟨flavor, compiled, hb, fails⟩
  have hbody := Node.body_of_bare same
  rw [hb] at hbody
  refine ⟨flavor, compiled, ?_, fails⟩
  cases ho : other.body <;> rw [ho] at hbody <;> first | exact hbody.symm | cases hbody

/-- An aggregator embeds no flow. -/
theorem not_isAggregator (made : node.WellMade) (built : node.isFailed = false) :
    node.isAggregator = false := by
  obtain ⟨flavor, compiled, hb, -⟩ := h.resolve_left (by simp [built])
  have hkind := made.kind built
  rw [hb] at hkind
  have hno : node.isAggregator ≠ true := by
    intro haggregator
    rw [Node.ofName?_of_isAggregator haggregator] at hkind
    cases hkind
  simpa using hno

end Node.Broken

namespace Session

/-- Whether nothing that is emitted for the node with this id can run. -/
def Dark (t : Session) (id : String) : Prop :=
  ∃ node, t.node? id = some node ∧ node.isStructural = false ∧
    ∀ fields, t.emit node = .ok fields → Json.nodeCanRun (.object fields) = false

theorem dark_of_broken {t : Session} {id : String} {node : Node} (hn : t.node? id = some node)
    (h : node.Broken) : t.Dark id := by
  refine ⟨node, hn, h.visible, fun fields hfields => ?_⟩
  unfold Session.emit Registry.emit at hfields
  rw [Registry.emitWithin_unfold] at hfields
  rcases hfailed : node.isFailed with _ | _
  · obtain ⟨flavor, compiled, hb, fails⟩ := h.resolve_left (by simp [hfailed])
    rw [if_neg (by simp [h.visible, hfailed])] at hfields
    obtain ⟨args, hargs, rfl⟩ := map_eq_ok.mp hfields
    unfold Registry.args at hargs
    rw [hb] at hargs
    obtain rfl := Except.ok.inj hargs
    exact Registry.nodeCanRun_of_embedded fails
  · rw [hfailed, Bool.or_true, if_pos rfl] at hfields
    obtain rfl := Except.ok.inj hfields
    rfl

/-- A fork that takes in a node that cannot run cannot run itself. -/
theorem dark_of_takesIn {t : Session} (sound : t.Sound) {fork id : String} {node : Node}
    (hn : t.node? fork = some node) (isFork : node.isFork = true) (takes : node.TakesIn id)
    (truth : ∀ b, node.body.branching? = some b → node.body.kind? = some .ifs →
      ∀ key ∈ b.cases.map ForkCase.key, key = "true" ∨ key = "false")
    (dark : t.Dark id) : t.Dark fork := by
  rcases hfailed : node.isFailed with _ | _
  · have hsome := ((sound.registry.made fork node hn).branching?_isSome hfailed).trans isFork
    obtain ⟨b, hb⟩ := Option.isSome_iff_exists.mp hsome
    obtain ⟨key, hkey, hid⟩ := takes b hb
    obtain ⟨inner, hinner, visible, fails⟩ := dark
    refine ⟨node, hn, NodeBody.visible_of_branching hb, fun fields hfields => ?_⟩
    obtain ⟨rank, ranked⟩ := sound.registry.ranked
    have hemit : Registry.emit t.registry t.options.defaultEnableBackflow node = .ok fields :=
      hfields
    rw [ranked.emit_eq, if_neg (by simp [Node.isStructural, NodeBody.visible_of_branching hb,
      hfailed])] at hemit
    obtain ⟨args, hargs, rfl⟩ := map_eq_ok.mp hemit
    exact Registry.nodeCanRun_of_branch hargs hb hid (fun hk => truth b hb hk key hkey) hinner
      visible fails
  · exact dark_of_broken hn (.inl hfailed)

end Session

namespace Flattening

/-- What is read off in visible form has an entry. -/
theorem mem_emitNodes {s : Session} {w : Wiring} {ids : List String} {nodes : List JsonObject}
    {edges : List FlowEdge} (h : emitNodes s w ids = .ok (nodes, edges)) {id : String}
    (hid : id ∈ ids) {node : Node} (hn : s.node? id = some node)
    (visible : node.isStructural = false) : ∃ fields ∈ nodes, s.emit node = .ok fields := by
  induction ids generalizing nodes edges with
  | nil => cases hid
  | cons other ids ih =>
    obtain ⟨here, into, nodes', edges', ⟨found, hfound, hhere, -⟩, hrest, rfl, -⟩ :=
      emitNodes_cons_eq_ok.mp h
    by_cases he : id = other
    · subst he
      obtain rfl : node = found := Option.some.inj (hn.symm.trans hfound)
      unfold entries at hhere
      rw [if_neg (by simp [visible])] at hhere
      obtain ⟨fields, hfields, rfl⟩ := map_eq_ok.mp hhere
      exact ⟨fields, by simp, hfields⟩
    · obtain ⟨fields, hmem, hfields⟩ := ih hrest ((List.mem_cons.mp hid).resolve_left he)
      exact ⟨fields, List.mem_append_right _ hmem, hfields⟩

end Flattening

/-- Whether the ids of a level are distinct, and the keys of the cases that each of its forks
declares. -/
def EditorGraph.Distinct (graph : EditorGraph) : Prop :=
  (graph.nodes.map EditorNode.id).Nodup ∧
    ∀ raw ∈ graph.nodes, (raw.declaredCases.map ForkCase.key).Nodup

namespace Level

section Compiled

variable {room : Nat} {graph : EditorGraph} {s t built connected : Session} {flow : Flow}
  {order : List String} {blocks : List Block} {g : Block.Folding}
  (c : Compiled room graph s t flow built connected order blocks g)

include c

/-- The cases of a fork of the level are those that its ports declare. -/
theorem Compiled.cases {raw : EditorNode} (hraw : raw ∈ graph.nodes) {node : Node}
    (hn : t.node? raw.id = some node) {b : Branching} (hb : node.body.branching? = some b) :
    ∃ made ∈ graph.nodes, b.cases = made.declaredCases ∧
      node.body.kind? = NodeKind.ofName? (Text.lower made.kind) := by
  obtain ⟨made, hmade, -, first, found, from_, hfound, hbare⟩ := c.exists_node hraw
  obtain rfl : node = found := Option.some.inj (hn.symm.trans hfound)
  obtain ⟨d, hd, hcases⟩ := Node.branching_of_bare hbare hb
  have hfailed : first.isFailed = false := by
    unfold Node.isFailed
    cases hbody : first.body <;> rw [hbody] at hd <;> first | rfl | cases hd
  have hkind := from_.body.resolve_left (by simp [hfailed])
  refine ⟨made, hmade, ?_, ?_⟩
  · rw [← hcases, from_.branching d hd]
    rfl
  · rw [← Node.kind?_of_bare hbare, hkind, from_.lowerKind]

theorem Compiled.distinctKeys (distinct : graph.Distinct) :
    ∀ raw ∈ graph.nodes, ∀ node, t.node? raw.id = some node → Registry.DistinctKeys node := by
  intro raw hraw node hn b hb
  obtain ⟨made, hmade, hcases, -⟩ := c.cases hraw hn hb
  rw [hcases]
  exact distinct.2 made hmade

/-- A node that cannot run keeps the flow of its level from running, by itself or through the forks
around it. -/
theorem Compiled.dark_shows (distinct : graph.Distinct) (sound : t.Sound) {id : String}
    (hid : id ∈ order) (dark : t.Dark id)
    (passes : ∀ node, t.node? id = some node → node.isAggregator = false) : flow.canRun = false := by
  have placed := c.placed (c.distinctKeys distinct)
  -- outwards from fork to fork, each of which stands earlier in the order
  induction hk : order.idxOf id using Nat.strong_induction_on generalizing id with
  | _ k ih =>
    rcases placed.somewhere id hid with hleft | ⟨node, hn, haggregator⟩ |
      ⟨fork, hfork, hlt, node, hn, isFork, takes⟩
    · obtain ⟨node, hn, visible, fails⟩ := dark
      obtain ⟨w, hread⟩ := placed.read
      obtain ⟨fields, hmem, hfields⟩ := Flattening.mem_emitNodes hread hleft hn visible
      unfold Flow.canRun
      rw [List.all_append, Bool.and_eq_false_iff]
      exact .inl (List.all_eq_false.mpr ⟨fields, hmem, by simp [fails fields hfields]⟩)
    · simp [passes node hn] at haggregator
    · have truth : ∀ b, node.body.branching? = some b → node.body.kind? = some .ifs →
          ∀ key ∈ b.cases.map ForkCase.key, key = "true" ∨ key = "false" := by
        intro b hb hifs key hkey
        obtain ⟨raw, hraw, rfl⟩ := List.mem_map.mp ((placed.mem fork).mp hfork)
        obtain ⟨made, -, hcases, hkind⟩ := c.cases hraw hn hb
        rw [hcases] at hkey
        obtain ⟨case, hcase, rfl⟩ := List.mem_map.mp hkey
        exact key_of_ifs hcase (hkind.symm.trans hifs)
      refine ih _ (hk ▸ hlt) hfork (Session.dark_of_takesIn sound hn isFork takes truth dark) ?_ rfl
      intro found hfound
      obtain rfl : node = found := Option.some.inj (hn.symm.trans hfound)
      have hno : node.isAggregator ≠ true := fun h => by
        simp [Node.not_isFork_of_isAggregator h] at isFork
      simpa using hno

end Compiled

/-- A start, end or aggregator can always be built. -/
theorem isFailed_of_marker {nested : NestedCompiler} {raw : EditorNode} {s t : Session}
    {node : Node} (run : buildNode nested raw s = (.ok node, t))
    (marker : NodeKind.ofName? (Text.lower raw.kind) = some .marker) : node.isFailed = false := by
  rw [run_buildNode, Node.build_plain nested marker (by decide)] at run
  obtain ⟨hnode, -⟩ := Prod.mk.inj run
  obtain rfl := Except.ok.inj hnode
  rfl

/-- `Visits room graph s room' graph' s'`: a compile of `graph` that starts in `s` reaches `graph'`
through sub-graphs among its nodes, and compiles it from `s'` on. -/
inductive Visits : Nat → EditorGraph → Session → Nat → EditorGraph → Session → Prop
  | here {room : Nat} {graph : EditorGraph} {s : Session} : Visits room graph s room graph s
  | inside {room room' : Nat} {graph inner graph' : EditorGraph} {s t u s' : Session}
      {raw : EditorNode} (begins : BeginsNode (nestedCompiler (room + 1)) graph s raw t)
      (enters : t.Enters raw inner u) (visits : Visits room inner u room' graph' s') :
      Visits (room + 1) graph s room' graph' s'

section Visits

variable {room : Nat} {graph : EditorGraph} {s t : Session} {flow : Flow}

/-- A broken node of a level keeps the flow of the level from running. -/
theorem broken_shows (run : compile (nestedCompiler room) graph s = (.ok flow, t)) (sound : s.Sound)
    (distinct : graph.Distinct) {raw : EditorNode} {node : Node}
    (builds : BuildsAs (nestedCompiler room) graph s raw node) (broken : node.Broken) :
    flow.canRun = false := by
  obtain ⟨built, connected, order, blocks, g, c⟩ := compiled_of_compile run
  obtain ⟨now, hnow, hbare⟩ := c.registers distinct.1 builds
  obtain ⟨u, v, begins, hnode⟩ := builds
  have behaves := behaves_nestedCompiler room
  have hfrom := ((ensures_buildNode behaves raw u).of_ok hnode).1
  have hraw : raw ∈ graph.nodes := by
    obtain ⟨-, -, before, after, -, -, hsplit, -⟩ := begins
    simp [hsplit]
  have passes : ∀ found, t.node? raw.id = some found → found.isAggregator = false := by
    intro found hfound
    obtain rfl : now = found := Option.some.inj (hnow.symm.trans hfound)
    rw [Node.isAggregator_of_bare hbare]
    rcases hfailed : node.isFailed with _ | _
    · exact broken.not_isAggregator hfrom.wellMade hfailed
    · have hno : node.isAggregator ≠ true := by
        intro haggregator
        have hmarker := Node.ofName?_of_isAggregator haggregator
        rw [hfrom.lowerKind] at hmarker
        simp [isFailed_of_marker hnode hmarker] at hfailed
      simpa using hno
  have dark : t.Dark raw.id := Session.dark_of_broken hnow (broken.of_bare hbare.symm)
  have final := ((ensures_compile behaves graph s).of_ok run).sound sound
  exact c.dark_shows distinct final (c.mem_order.mpr (List.mem_map_of_mem hraw)) dark passes

/-- Where a level compiles, each graph that its nodes enter compiles too and is embedded. -/
theorem exists_embedded (run : compile (nestedCompiler (room + 1)) graph s = (.ok flow, t))
    (sound : s.Sound) (closed : s.registry.Closed []) {raw : EditorNode} {inner : EditorGraph}
    {u v : Session} (begins : BeginsNode (nestedCompiler (room + 1)) graph s raw u)
    (enters : u.Enters raw inner v) :
    v.Sound ∧ v.registry.Closed [] ∧
      ∃ compiled w, compile (nestedCompiler room) inner v = (.ok compiled, w) ∧
        ∃ node flavor, BuildsAs (nestedCompiler (room + 1)) graph s raw node ∧
          node.body = .subgraph flavor compiled := by
  have behaves := behaves_nestedCompiler (room + 1)
  obtain ⟨built, connected, order, blocks, g, c⟩ := compiled_of_compile run
  have settles := begins.settles behaves
  have hsound := enters.sound (settles.sound sound)
  have hclosed : v.registry.Closed [] := by
    rw [enters.within]
    exact settles.closed [] closed
  refine ⟨hsound, hclosed, ?_⟩
  obtain ⟨node, x, hnode, -⟩ := begins.exists_built behaves c.building
  obtain ⟨kind, flavor, hentrance⟩ := enters
  have hbuild := hnode
  rw [run_buildNode, Node.build_subgraph _ kind, Node.run_buildNested, hentrance] at hbuild
  dsimp only at hbuild
  rcases hrun : compile (nestedCompiler room) inner v with ⟨e | compiled, w⟩
  · -- a level reached through nodes knows all its resources, so its failure spoils everything
    have hfinal := ((ensures_compile (behaves_nestedCompiler room) inner v).of_error hrun).2 hsound
      hclosed
    rw [show nestedCompiler (room + 1) inner v = (.error e, w) from hrun] at hbuild
    simp only [hfinal] at hbuild
    cases (Prod.mk.inj hbuild).1
  · rw [show nestedCompiler (room + 1) inner v = (.ok compiled, w) from hrun] at hbuild
    refine ⟨compiled, w, rfl, node, flavor, ⟨u, x, begins, hnode⟩, ?_⟩
    dsimp only at hbuild
    rw [Session.checkResources_of_nil _ (Node.resourceIds_holder raw _)] at hbuild
    obtain rfl := Except.ok.inj (Prod.mk.inj hbuild).1
    rfl

/-- A stand-in in a level that is reached through nodes keeps the flow around it from running. -/
theorem Visits.not_canRun {room' : Nat} {graph' : EditorGraph} {s' : Session}
    (visits : Visits room graph s room' graph' s')
    (run : compile (nestedCompiler room) graph s = (.ok flow, t)) (sound : s.Sound)
    (closed : s.registry.Closed [])
    (distinct : ∀ room' graph' s', Visits room graph s room' graph' s' → graph'.Distinct)
    {raw : EditorNode} {node : Node} (builds : BuildsAs (nestedCompiler room') graph' s' raw node)
    (failed : node.isFailed = true) : flow.canRun = false := by
  induction visits generalizing flow t with
  | here => exact broken_shows run sound (distinct _ _ _ .here) builds (.inl failed)
  | inside begins enters visits ih =>
    obtain ⟨hsound, hclosed, compiled, w, hrun, made, flavor, hmade, hbody⟩ :=
      exists_embedded run sound closed begins enters
    have fails := ih hrun hsound hclosed
      (fun _ _ _ h => distinct _ _ _ (.inside begins enters h)) builds
    exact broken_shows run sound (distinct _ _ _ .here) hmade (.inr ⟨flavor, compiled, hbody, fails⟩)

end Visits

end Level

/-- A node that could not be built keeps the flow of the whole graph from running, in whichever
level that is reached through nodes it is. -/
theorem EditorGraph.failed_shows (graph : EditorGraph) (collaborators : Collaborators)
    (options : Options) {report : Report} (run : graph.compile collaborators options = .ok report)
    (distinct : ∀ room level s,
      Level.Visits options.maxDepth graph { collaborators, options } room level s → level.Distinct)
    {room : Nat} {level : EditorGraph} {s : Session}
    (visits : Level.Visits options.maxDepth graph { collaborators, options } room level s)
    {raw : EditorNode} {node : Node}
    (builds : Level.BuildsAs (Level.nestedCompiler room) level s raw node)
    (failed : node.isFailed = true) : report.flow.canRun = false := by
  unfold EditorGraph.compile at run
  rcases hrun : Session.compile graph { collaborators, options } with ⟨e | flow, t⟩
  · rw [hrun] at run
    cases run
  · rw [hrun] at run
    obtain rfl := Except.ok.inj run
    exact visits.not_canRun hrun (Session.sound_fresh collaborators options)
      (Registry.closed_nil []) distinct builds failed

namespace Level

/-- A graph whose fork takes in a piece of code without code, which cannot be built. -/
def missingCode : EditorGraph where
  nodes := [bareNode "a" "code", bareNode "s" "start", bareNode "f" "ifs",
    bareNode "g" "aggregator", bareNode "e" "end"]
  edges := oneFork.edges

/-- A node with a graph embedded in it. -/
def holding (id : String) (graph : EditorGraph) : EditorNode :=
  { id, data := [("payload__kind", .string "subgraph"), ("config__patent_graph", graph.encode)] }

/-- A graph with the failure inside a sub-graph. -/
def missingInside : EditorGraph where
  nodes := [holding "n" missingCode]

/-- A graph that can be read back is found where it is embedded. -/
theorem nestedGraph_holding (id : String) {graph : EditorGraph}
    (decoded : (EditorGraph.decode graph.encode).toOption = some graph) (s : Session) :
    Node.nestedGraph s (Node.ofEditor (holding id graph)) = .ok graph := by
  have held : ((Node.ofEditor (holding id graph)).data.get? "config__patent_graph").filter
      (fun value => !value.isNull) = some graph.encode := by rfl
  rw [Node.nestedGraph_embedded held]
  rcases h : EditorGraph.decode graph.encode with e | read
  · rw [h] at decoded
    cases decoded
  · rw [h] at decoded
    obtain rfl := Option.some.inj decoded
    rfl

theorem enters_missingInside (s : Session) :
    Node.nestedGraph s (Node.ofEditor (holding "n" missingCode)) = .ok missingCode :=
  nestedGraph_holding "n" (by decide +kernel) s

theorem visits_missingInside {room level s}
    (h : Visits 16 missingInside {} room level s) : level = missingInside ∨ level = missingCode := by
  cases h with
  | here => exact .inl rfl
  | inside begins enters visits =>
    obtain ⟨-, -, before, after, -, -, hsplit, -⟩ := begins
    obtain rfl : _ = holding "n" missingCode := by
      have hmem : _ ∈ missingInside.nodes := hsplit ▸ List.mem_append_right before List.mem_cons_self
      exact List.mem_singleton.mp hmem
    obtain ⟨-, flavor, hentrance⟩ := enters
    have hgraph := (Node.entrance_eq_ok.mp hentrance).2.1
    rw [enters_missingInside] at hgraph
    obtain rfl := Except.ok.inj hgraph
    cases visits with
    | here => exact .inr rfl
    | inside begins enters _ =>
      -- no node of the inner graph has a graph of its own
      obtain ⟨-, -, before, after, -, -, hsplit, -⟩ := begins
      have none : ∀ raw ∈ missingCode.nodes,
          NodeKind.ofName? (Text.lower raw.kind) ≠ some .subgraph := by decide +kernel
      exact absurd enters.1 (none _ (hsplit ▸ List.mem_append_right before List.mem_cons_self))

end Level

theorem EditorGraph.failed_shows_missingInside :
    ∃ report, Level.missingInside.compile {} {} = .ok report ∧ report.flow.canRun = false := by
  have ok : (Level.missingInside.compile {} {}).toOption.isSome = true := by decide +kernel
  have distinct : Level.missingInside.Distinct ∧ Level.missingCode.Distinct := by
    unfold EditorGraph.Distinct
    decide +kernel
  have failed : ((Level.buildNode (Level.nestedCompiler 15) (Level.bareNode "a" "code")
      { nesting := ["n"] }).1.toOption.any Node.isFailed) = true := by decide +kernel
  rcases run : Level.missingInside.compile {} {} with e | report
  · rw [run] at ok
    cases ok
  rcases hbuild : Level.buildNode (Level.nestedCompiler 15) (Level.bareNode "a" "code")
    { nesting := ["n"] } with ⟨e | node, t⟩
  · rw [hbuild] at failed
    cases failed
  rw [hbuild] at failed
  have enters : ({} : Session).Enters (Level.holding "n" Level.missingCode) Level.missingCode
      { nesting := ["n"] } := by
    refine ⟨by decide +kernel, .plain, Node.entrance_eq_ok.mpr ⟨?_, Level.enters_missingInside _, ?_⟩⟩
    · rfl
    · rfl
  have visits : Level.Visits 16 Level.missingInside {} 15 Level.missingCode
      { nesting := ["n"] } :=
    .inside ⟨[], {}, [], [], [], ⟨[], {}, rfl, rfl⟩, rfl, rfl⟩ enters .here
  refine ⟨report, rfl, EditorGraph.failed_shows Level.missingInside {} {} run (fun room level s h => ?_)
    visits ⟨_, t, ⟨[], _, [], _, [], ⟨[], _, rfl, rfl⟩, rfl, rfl⟩, hbuild⟩ failed⟩
  rcases Level.visits_missingInside h with rfl | rfl
  · exact distinct.1
  · exact distinct.2

end WorkflowCompiler
