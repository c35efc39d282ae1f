import WorkflowCompiler.Proofs.Compile.Framing
import WorkflowCompiler.Proofs.Compile.Showing

/-!
# Nested graphs are contained

What is embedded in a sub-graph shows in the flow around it only in the arguments of that sub-graph,
whatever ids the levels inside declare. In the end the nodes and resources of a level are registered
once more, so that the level is read off as if nothing had been registered inside it.
-/
namespace WorkflowCompiler

open Step

/-- Whether two nodes are the same but for the graph embedded in them. -/
structure EditorNode.SameButGraph (a b : EditorNode) : Prop where
  id : a.id = b.id
  data : WorkflowCompiler.SameButGraph a.data b.data

namespace EditorNode.SameButGraph

variable {a b : EditorNode} (h : a.SameButGraph b)

include h

theorem kind : a.kind = b.kind := by
  unfold EditorNode.kind
  rw [h.data "payload__kind" (by decide), h.data "type" (by decide)]

theorem hasGraph (kind : a.HasGraph) : b.HasGraph := by
  unfold HasGraph
  rw [← h.kind]
  exact kind

theorem ofEditor : Node.ofEditor b = { Node.ofEditor a with data := b.data } := by
  have hinputs : b.inputPorts = a.inputPorts := by
    unfold inputPorts configList
    rw [h.data "config__input_ports" (by decide)]
  have hshape : b.inputShape = a.inputShape := by
    unfold inputShape configList
    rw [h.data "config__input_shape" (by decide)]
  have houtputs : b.outputPorts = a.outputPorts := by
    unfold outputPorts configList
    rw [h.data "config__output_ports" (by decide)]
  unfold Node.ofEditor
  rw [← h.id, ← h.kind, hinputs, hshape, houtputs]

theorem payload (key : String) : (Node.ofEditor b).payload key = (Node.ofEditor a).payload key :=
  (Node.payload_of_sameButGraph h.data key).symm

theorem appId : (Node.ofEditor b).appId = (Node.ofEditor a).appId := by
  unfold Node.appId Node.payloadString
  rw [h.payload, h.ofEditor]

/-- How the graph is run is written beside it. -/
theorem flavor : (Node.ofEditor b).flavor = (Node.ofEditor a).flavor := by
  have hstop : (Node.ofEditor b).stopCondition = (Node.ofEditor a).stopCondition := by
    unfold Node.stopCondition
    rw [h.payload, h.ofEditor]
    rfl
  unfold Node.flavor Node.payloadBool
  rw [hstop, h.payload, h.ofEditor]

theorem holder (body : NodeBody) : (Node.ofEditor b).holder.withBody body =
    { (Node.ofEditor a).holder with data := b.data, body } := by
  have happ := h.appId
  unfold Node.holder
  rw [happ, h.ofEditor]
  split <;> rfl

end EditorNode.SameButGraph

namespace Level

/-- A node with a graph of its own that has been built embeds the flow of that graph. -/
theorem eq_of_built_subgraph {nested : NestedCompiler} {raw : EditorNode} {t u : Session}
    {node : Node} (kind : raw.HasGraph)
    (run : buildNode nested raw t = (.ok node, u)) (built : node.isFailed = false) :
    ∃ flavor compiled, (Node.ofEditor raw).flavor = .ok flavor ∧
      node = (Node.ofEditor raw).holder.withBody (.subgraph flavor compiled) := by
  -- whatever goes wrong leads to a stand-in or to no node at all
  have failing : ∀ (e : CompileError) (v : Session),
      (if e.isRecoverable then
        ((.ok (Node.placeholder raw e.message), v.recordFailure raw.id e) :
          Except CompileError Node × Session)
      else (.error e, v)) ≠ (.ok node, u) := by
    intro e v h
    split at h
    · obtain rfl := Except.ok.inj (Prod.mk.inj h).1
      cases built
    · cases (Prod.mk.inj h).1
  rw [run_buildNode, Node.build_subgraph nested kind, Node.run_buildNested] at run
  rcases hentrance : (Node.ofEditor raw).entrance t with e | ⟨flavor, graph, v⟩
  · rw [hentrance] at run
    exact absurd run (failing e t)
  · rw [hentrance] at run
    dsimp only at run
    rcases hnested : nested graph v with ⟨e | flow, w⟩
    · rw [hnested] at run
      exact absurd run (failing e w.leave)
    · rw [hnested] at run
      dsimp only at run
      rw [Session.checkResources_of_nil _ (Node.resourceIds_holder raw _)] at run
      exact ⟨flavor, flow, (Node.entrance_eq_ok.mp hentrance).1,
        (Except.ok.inj (Prod.mk.inj run).1).symm⟩

/-- Two nodes that are the same but for their graphs are built alike. -/
theorem alike_of_built {nested : NestedCompiler} {a b : EditorNode} (same : a.SameButGraph b)
    (kind : a.HasGraph) {t u t' u' : Session}
    {node node' : Node} (run : buildNode nested a t = (.ok node, u)) (built : node.isFailed = false)
    (run' : buildNode nested b t' = (.ok node', u')) (built' : node'.isFailed = false) :
    Node.Alike [a.id] node node' := by
  obtain ⟨flavor, compiled, hflavor, rfl⟩ := eq_of_built_subgraph kind run built
  obtain ⟨flavor', compiled', hflavor', rfl⟩ := eq_of_built_subgraph (same.hasGraph kind) run' built'
  rw [same.flavor, hflavor] at hflavor'
  obtain rfl := Except.ok.inj hflavor'
  have hid : (Node.ofEditor a).holder.id ∈ [a.id] := by
    unfold Node.holder
    split <;> exact List.mem_cons_self
  have hdata : (Node.ofEditor a).holder.data = a.data := by
    unfold Node.holder
    split <;> rfl
  have hself : (Node.ofEditor a).holder.withBody (.subgraph flavor compiled) =
      { (Node.ofEditor a).holder with data := a.data, body := .subgraph flavor compiled } := by
    unfold Node.withBody
    rw [hdata]
  rw [hself, same.holder]
  exact .hidden _ flavor hid same.data

/-- Arranging looks at the ids of the nodes and at the connections. -/
theorem arrange_congr {graph graph' : EditorGraph}
    (ids : graph'.nodes.map EditorNode.id = graph.nodes.map EditorNode.id)
    (edges : graph'.edges = graph.edges) : arrange graph' = arrange graph := by
  unfold arrange connectAll
  rw [ids, edges]

/-- What is registered last under an id is alike when the registered nodes are. -/
theorem alike_registerAll {hidden : List String} {nodes nodes' : List Node}
    (h : List.Forall₂ (Node.Alike hidden) nodes nodes') {s s' : Session} {id : String}
    (alike : id ∉ nodes.map Node.id →
      Option.Rel (Node.Alike hidden) (s.node? id) (s'.node? id)) :
    Option.Rel (Node.Alike hidden) ((s.registerAll nodes).node? id)
      ((s'.registerAll nodes').node? id) := by
  induction h generalizing s s' with
  | nil => exact alike (by simp)
  | @cons a b nodes nodes' first _ ih =>
    show Option.Rel (Node.Alike hidden) (((s.register a).registerAll nodes).node? id)
      (((s'.register b).registerAll nodes').node? id)
    refine ih fun hid => ?_
    rw [Session.node?_register, Session.node?_register, ← first.id]
    split
    · exact .some first
    · next hne => exact alike (by simpa [hne] using hid)

end Level

namespace EditorGraph

/-- Whether the nodes and resources of a level name resources of the level only. -/
def SelfContained (graph : EditorGraph) (c : Collaborators) : Prop :=
  ∀ raw ∈ graph.nodes ++ graph.resources, ∀ x ∈ raw.named c,
    x ∈ graph.resources.map EditorNode.id

/-- Two levels that are the same but for the graph embedded in one node, and in which no other node
and no resource has a graph of its own. -/
structure SameButGraph (graph graph' : EditorGraph) (a b : EditorNode) : Prop where
  beside : a.SameButGraph b
  kind : a.HasGraph
  nodes : ∃ before after, graph.nodes = before ++ a :: after ∧
    graph'.nodes = before ++ b :: after ∧ ∀ raw ∈ before ++ after, ¬ raw.HasGraph
  edges : graph'.edges = graph.edges
  resources : graph'.resources = graph.resources
  plain : ∀ raw ∈ graph.resources, ¬ raw.HasGraph

end EditorGraph

namespace Level

open Session

section Built

variable {nested : NestedCompiler} (behaves : ∀ graph s, Behaves (nested graph) s)
  {graph : EditorGraph} {s t : Session} {resources nodes : List Node}

include behaves

/-- What a level has registered in the end has no members yet and names what the level names. -/
theorem registered_of_buildAll (resourced : Resourced nested graph s resources t) {u v : Session}
    (hnodes : (graph.nodes.mapM (buildNode nested)) t = (.ok nodes, u)) {id : String}
    (hid : id ∈ graph.declared) {node : Node}
    (h : ((v.registerAll resources).registerAll nodes).node? id = some node) :
    node.members = [] ∧ ∃ raw ∈ graph.nodes ++ graph.resources,
      node.NamesAs raw s.collaborators := by
  have hfrom := ((ensures_buildNodes behaves graph.nodes t).of_ok hnodes).1
  have hresources := resourced.builtFrom behaves
  have hnames := (namesAs_buildNodes behaves graph.nodes t).of_ok hnodes
  rw [(resourced.settles behaves).collaborators] at hnames
  rcases node?_registerAll_eq_some h with ⟨hmem, -⟩ | ⟨hno, h⟩
  · obtain ⟨raw, hraw, names⟩ := exists_of_mem_right hnames hmem
    exact ⟨(fresh_of_builtFrom hfrom node hmem).2, raw, List.mem_append_left _ hraw, names⟩
  rcases node?_registerAll_eq_some h with ⟨hmem, -⟩ | ⟨hno', -⟩
  · obtain ⟨raw, hraw, names⟩ := exists_of_mem_right (resourced.namesAs behaves) hmem
    exact ⟨(fresh_of_builtFrom hresources node hmem).2, raw, List.mem_append_right _ hraw, names⟩
  · rw [ids_of_builtFrom hfrom] at hno
    rw [ids_of_builtFrom hresources] at hno'
    exact absurd hid (not_or.mpr ⟨hno, hno'⟩)

omit behaves in
/-- Nodes without graphs of their own are built alike once the resources that they name are
registered. -/
theorem eq_of_buildNodes_plain {ids : List String} {raws : List EditorNode}
    (plain : ∀ raw ∈ raws, ¬ raw.HasGraph) {c : Collaborators}
    (names : ∀ raw ∈ raws, ∀ x ∈ raw.named c, x ∈ ids) {s s' t t' : Session}
    (collaborators : s.collaborators = c) (collaborators' : s'.collaborators = c)
    (known : ∀ x ∈ ids, s.registry.contains x = true)
    (known' : ∀ x ∈ ids, s'.registry.contains x = true) {nodes nodes' : List Node}
    (run : (raws.mapM (buildNode nested)) s = (.ok nodes, t))
    (run' : (raws.mapM (buildNode nested)) s' = (.ok nodes', t')) : nodes = nodes' := by
  let same (u u' : Session) : Prop := u.collaborators = c ∧ u'.collaborators = c ∧
    u.registry = s.registry ∧ u'.registry = s'.registry
  have all : Lockstep (raws.mapM (buildNode nested)) (raws.mapM (buildNode nested)) s s'
      (List.Forall₂ Eq) same fun _ => same := by
    refine lockstep_mapM (fun _ => same) ?_ ⟨collaborators, collaborators', rfl, rfl⟩
    rintro before raw after u u' rfl ⟨hc, hc', hr, hr'⟩
    refine lockstep_buildNode_plain nested (plain raw (by simp)) (hc'.trans hc.symm) (fun x hx => ?_)
      fun failures failures' => ⟨hc, hc', hr, hr'⟩
    have hx := names raw (by simp) x (hc ▸ hx)
    rw [hr, hr', known x hx, known' x hx]
  exact List.forall₂_eq_eq_eq ▸ (all.of_ok run run').1

variable {graph' : EditorGraph} {a b : EditorNode} (d : graph.SameButGraph graph' a b)
  (contained : graph.SelfContained s.collaborators)

include d contained

/-- The nodes of two levels that are the same but for one embedded graph are built alike. -/
theorem alike_of_buildNodes {u v v' : Session} {nodes' : List Node}
    (resourced : Resourced nested graph s resources u)
    (hnodes : (graph.nodes.mapM (buildNode nested)) u = (.ok nodes, v))
    (resourced' : Resourced nested graph' s resources u)
    (hnodes' : (graph'.nodes.mapM (buildNode nested)) u = (.ok nodes', v')) {node node' : Node}
    (builds : BuildsAs nested graph s a node) (ok : node.isFailed = false)
    (builds' : BuildsAs nested graph' s b node') (ok' : node'.isFailed = false) :
    List.Forall₂ (Node.Alike [a.id]) nodes nodes' := by
  obtain ⟨before, after, split, split', plain⟩ := d.nodes
  -- up to the node with the embedded graph the two levels are built the same
  obtain ⟨first, rest, t, w, hfirst, hnode, hrest, rfl⟩ :=
    builds.run split (fun h => plain a h d.kind) resourced hnodes
  obtain ⟨first', rest', t', w', hfirst', hnode', hrest', rfl⟩ :=
    builds'.run split' (fun h => plain b h (d.beside.hasGraph d.kind)) resourced' hnodes'
  obtain ⟨hsame, rfl⟩ := Prod.mk.inj (hfirst.symm.trans hfirst')
  obtain rfl := Except.ok.inj hsame
  -- the node itself is built alike, and what follows it finds the same resources
  have alike := alike_of_built d.beside d.kind hnode ok hnode' ok'
  have begins : u.Settles t := ((ensures_buildNodes behaves before u).of_ok hfirst).2.1
  have grown : ∀ {raw : EditorNode} {made : Node} {w : Session},
      buildNode nested raw t = (.ok made, w) → w.collaborators = s.collaborators ∧
        ∀ x ∈ graph.resources.map EditorNode.id, w.registry.contains x = true := by
    intro raw made w run
    have settles := begins.trans ((ensures_buildNode behaves raw t).of_ok run).2.1
    refine ⟨((resourced.settles behaves).trans settles).collaborators, fun x hx => ?_⟩
    obtain ⟨r, hr, rfl⟩ := List.mem_map.mp hx
    exact settles.registered _ (resourced.registers behaves r hr)
  obtain rfl : rest = rest' := eq_of_buildNodes_plain
    (fun raw hraw => plain raw (List.mem_append_right _ hraw))
    (fun raw hraw => contained raw (by simp [split, hraw])) (grown hnode).1 (grown hnode').1
    (grown hnode).2 (grown hnode').2 hrest hrest'
  have refl : ∀ nodes : List Node, List.Forall₂ (Node.Alike [a.id]) nodes nodes := fun nodes =>
    List.forall₂_same.mpr fun node _ => .same node
  exact List.rel_append (refl first) (.cons alike (refl rest))

/-- Two levels that are the same but for one embedded graph register nodes that are alike, and what
they register names resources of the level. -/
theorem agree_of_buildAll {built built' : Session} (run : buildAll nested graph s = (.ok (), built))
    (run' : buildAll nested graph' s = (.ok (), built')) {node node' : Node}
    (builds : BuildsAs nested graph s a node) (ok : node.isFailed = false)
    (builds' : BuildsAs nested graph' s b node') (ok' : node'.isFailed = false) :
    built.Agree [a.id] graph.declared built' ∧
      ∀ id ∈ graph.declared, ∀ node, built.node? id = some node → ∀ x ∈ node.resourceIds,
        x ∈ graph.resources.map EditorNode.id := by
  have grows := ((ensures_buildAll behaves graph s).of_ok run).1
  have grows' := ((ensures_buildAll behaves graph' s).of_ok run').1
  obtain ⟨resources, u, nodes, v, resourced, hnodes, rfl⟩ := buildAll_eq_ok.mp run
  obtain ⟨resources', u', nodes', v', resourced', hnodes', rfl⟩ := buildAll_eq_ok.mp run'
  have same : Resourced nested graph s resources' u' := by
    unfold Resourced at resourced' ⊢
    rwa [← d.resources]
  obtain ⟨rfl, rfl⟩ := resourced.unique same
  have alike := alike_of_buildNodes behaves d contained resourced hnodes resourced' hnodes' builds ok
    builds' ok'
  have ids := ids_of_builtFrom ((ensures_buildNodes behaves graph.nodes u).of_ok hnodes).1
  have ids' := ids_of_builtFrom (resourced.builtFrom behaves)
  have names : ∀ id ∈ graph.declared, ∀ made,
      ((v.registerAll resources).registerAll nodes).node? id = some made →
        ∀ x ∈ made.resourceIds, x ∈ graph.resources.map EditorNode.id := by
    intro id hid made hmade x hx
    obtain ⟨-, raw, hraw, names⟩ := registered_of_buildAll behaves resourced hnodes hid hmade
    exact contained raw hraw x (names x hx)
  refine ⟨⟨grows'.collaborators.trans grows.collaborators.symm,
    grows'.options.trans grows.options.symm, grows'.nesting.trans grows.nesting.symm, ?_⟩, names⟩
  refine ⟨fun id hid => ?_, fun id hid made hmade m hm => ?_, fun id hid made hmade x hx => ?_⟩
  · have refl : List.Forall₂ (Node.Alike [a.id]) resources resources :=
      List.forall₂_same.mpr fun node _ => .same node
    refine alike_registerAll alike fun hno => alike_registerAll refl fun hno' => ?_
    rw [ids] at hno
    rw [ids'] at hno'
    exact absurd hid (not_or.mpr ⟨hno, hno'⟩)
  · rw [(registered_of_buildAll behaves resourced hnodes hid hmade).1] at hm
    cases hm
  · exact .inr (names id hid made hmade x hx)

/-- What is embedded in the one node shows in its arguments only, and among the resources it does
not show at all where none of them stands for that node or a fork around it. -/
theorem sameBut_of_compile (sound : s.Sound) {flow flow' : Flow} {t t' : Session}
    (run : compile nested graph s = (.ok flow, t)) (run' : compile nested graph' s = (.ok flow', t'))
    {node node' : Node} (builds : BuildsAs nested graph s a node) (ok : node.isFailed = false)
    (builds' : BuildsAs nested graph' s b node') (ok' : node'.isFailed = false) :
    Flow.SameBut [a.id] [a.id] flow flow' ∧
      ((∀ id ∈ graph.resources.map EditorNode.id,
          ¬ Relation.ReflTransGen t.registry.Nests id a.id) → Flow.SameBut [a.id] [] flow flow') := by
  obtain ⟨built, w, order, hbuilt, harrange, hflow⟩ := compile_eq_ok.mp run
  obtain ⟨built', w', order', hbuilt', harrange', hflow'⟩ := compile_eq_ok.mp run'
  have ids : graph'.nodes.map EditorNode.id = graph.nodes.map EditorNode.id := by
    obtain ⟨before, after, split, split', -⟩ := d.nodes
    rw [split, split', List.map_append, List.map_append, List.map_cons, List.map_cons, d.beside.id]
  obtain ⟨agree, names⟩ := agree_of_buildAll behaves d contained hbuilt hbuilt' builds ok builds' ok'
  obtain ⟨settles, holds, -⟩ := (ensures_buildAll behaves graph s).of_ok hbuilt
  obtain ⟨settles', holds', -⟩ := (ensures_buildAll behaves graph' s).of_ok hbuilt'
  obtain ⟨arranges, same⟩ := (ensures_arrange holds).of_ok harrange
  obtain ⟨arranges', -⟩ := (ensures_arrange holds').of_ok harrange'
  have sound := (arranges.sound (settles.sound sound)).registry
  obtain ⟨rank, ranked⟩ := sound.ranked
  obtain ⟨rank', ranked'⟩ := (arranges'.sound (settles'.sound ‹s.Sound›)).registry.ranked
  -- both levels are arranged alike
  rw [arrange_congr ids d.edges] at harrange'
  obtain ⟨⟨hpair, among, horder⟩, agree⟩ :=
    (lockstep_arrange graph (fun id hid => .inl hid) agree).of_ok harrange harrange'
  obtain ⟨rfl, rfl⟩ := Prod.mk.inj hpair
  have uses : ∀ id ∈ graph.declared, ∀ node, t.registry.get? id = some node →
      ∀ x ∈ node.resourceIds, x ∈ {x | x ∈ graph.resources.map EditorNode.id} := by
    intro id hid node hn x hx
    obtain ⟨old, hold, hbare⟩ := same.exists_of_get? hn
    exact names id hid old hold x (Node.resourceIds_of_bare hbare ▸ hx)
  have sources : ∀ p ∈ w.placed, p.link.source ∈ graph.declared := fun p hp =>
    among.nodes _ (among.valid.source p hp)
  -- so they are read off alike, whatever is hidden among the resources
  have read : ∀ {hidden' : List String} {ids : Set String}, t.Agree hidden' ids t' →
      {x | x ∈ graph.resources.map EditorNode.id} ⊆ ids → Flow.SameBut [a.id] hidden' flow flow' := by
    intro hidden' ids agree' sub
    have read := Flattening.flow_corresponds agree agree'
      (fun id hid node hn x hx => sub (uses id hid node hn x hx)) ranked ranked' sound.made sources
      horder fun id (hid : id ∈ graph.resources.map EditorNode.id) => sub hid
    rw [hflow, ← d.resources, hflow'] at read
    exact read.of_ok
  refine ⟨read agree fun id hid => .inr hid, fun off => ?_⟩
  have plainly := agree.registry.unhidden sound.keyed (fun id hid => .inr hid) uses
    fun id hid name hname => List.mem_singleton.mp hname ▸ off id hid
  exact read ⟨agree.collaborators, agree.options, agree.nesting, plainly⟩ fun id hid =>
    ⟨.inr hid, fun name hname => List.mem_singleton.mp hname ▸ off id hid⟩

end Built

end Level

/-- What is embedded in the only sub-graph of a graph shows in the flow around it in the arguments of
that sub-graph only. Among the resources it shows where one of them has the id of the sub-graph, or
of a fork that has the sub-graph in its branches; without such an id the resources are the same. -/
theorem EditorGraph.nested_contained {graph graph' : EditorGraph} {a b : EditorNode}
    {collaborators : Collaborators} {options : Options} (same : graph.SameButGraph graph' a b)
    (contained : graph.SelfContained collaborators) {flow flow' : Flow} {t t' : Session}
    (run : Session.compile graph { collaborators, options } = (.ok flow, t))
    (run' : Session.compile graph' { collaborators, options } = (.ok flow', t')) {node node' : Node}
    (builds : Level.BuildsAs (Level.nestedCompiler options.maxDepth) graph
      { collaborators, options } a node) (built : node.isFailed = false)
    (builds' : Level.BuildsAs (Level.nestedCompiler options.maxDepth) graph'
      { collaborators, options } b node') (built' : node'.isFailed = false) :
    flow.edges = flow'.edges ∧
      flow.nodes.map (Json.redactedFields [a.id]) = flow'.nodes.map (Json.redactedFields [a.id]) ∧
      flow.resources.map (Json.redactedFields [a.id]) =
        flow'.resources.map (Json.redactedFields [a.id]) ∧
      ((∀ id ∈ graph.resources.map EditorNode.id,
          ¬ Relation.ReflTransGen t.registry.Nests id a.id) → flow.resources = flow'.resources) := by
  let s : Session := { collaborators, options }
  obtain ⟨hidden, plainly⟩ := Level.sameBut_of_compile (s := s)
    (Level.behaves_nestedCompiler options.maxDepth) same contained
    (Session.sound_fresh collaborators options) run run' builds built builds' built'
  refine ⟨hidden.edges, hidden.nodes_eq, hidden.resources_eq, fun off => ?_⟩
  have hresources := (plainly off).resources_eq
  rwa [funext Json.redactedFields_nil, List.map_id', List.map_id'] at hresources

namespace Level

/-- A model of the editor with a key. -/
def keyedModel (id key : String) : EditorNode :=
  { id, data := [("payload__kind", .string "OnlineLLM"), ("payload__source", .string "openai"),
      ("payload__base_model", .string "m"), ("payload__api_key", .string key)] }

/-- A node of the editor that asks a model. -/
def asking (id model : String) : EditorNode :=
  { id, data := [("payload__kind", .string "ParameterExtractor"),
      ("payload__base_model", .string model)] }

/-- A graph with a sub-graph, and a node that asks the model of the graph. -/
def besideModel (id : String) (inner : EditorGraph) : EditorGraph where
  nodes := [holding id inner, asking "p" "m"]
  resources := [keyedModel "m" "outer"]

/-- A graph with a node and a model of its own under the ids that are in use around it. -/
def borrowedIds : EditorGraph where
  nodes := [asking "p" "m"]
  resources := [keyedModel "m" "inner"]

theorem hasGraph_holding (id : String) (graph : EditorGraph) : (holding id graph).HasGraph := by
  have kind : (holding id graph).kind = "subgraph" := by
    simp [EditorNode.kind, holding, Entries.get?, Json.string?]
  unfold EditorNode.HasGraph
  rw [kind]
  decide +kernel

theorem sameButGraph_besideModel (id : String) (inner inner' : EditorGraph) :
    (besideModel id inner).SameButGraph (besideModel id inner') (holding id inner)
      (holding id inner') where
  beside := by
    refine ⟨rfl, fun key hkey => ?_⟩
    have held : ∀ graph : EditorGraph, (holding id graph).data.get? key =
        if "payload__kind" = key then some (.string "subgraph")
        else if "config__patent_graph" = key then some graph.encode else none := fun _ => rfl
    rw [held, held, if_neg (Ne.symm hkey), if_neg (Ne.symm hkey)]
  kind := hasGraph_holding id inner
  nodes := ⟨[], [asking "p" "m"], rfl, rfl, by decide +kernel⟩
  edges := rfl
  resources := rfl
  plain := by
    show ∀ raw ∈ [keyedModel "m" "outer"], ¬ raw.HasGraph
    decide +kernel

theorem selfContained_besideModel (id : String) (inner : EditorGraph) :
    (besideModel id inner).SelfContained {} := by
  have plain : ∀ raw ∈ [asking "p" "m", keyedModel "m" "outer"], ∀ x ∈ raw.named {}, x ∈ ["m"] := by
    decide +kernel
  intro raw hraw x hx
  rcases List.mem_cons.mp hraw with rfl | hraw
  · simp [EditorNode.named_of_hasGraph (hasGraph_holding id inner)] at hx
  · exact plain raw hraw x hx

theorem exists_besideModel (id : String) (inner : EditorGraph) (distinct : id ≠ "p")
    (ok : (Session.compile (besideModel id inner) {}).1.isOk = true)
    (built : ∀ now ∈ (Session.compile (besideModel id inner) {}).2.node? id, now.isFailed = false) :
    ∃ flow t node, Session.compile (besideModel id inner) {} = (.ok flow, t) ∧
      BuildsAs (nestedCompiler 16) (besideModel id inner) {} (holding id inner) node ∧
        node.isFailed = false := by
  have hraw : holding id inner ∈ (besideModel id inner).nodes := List.mem_cons_self
  obtain ⟨node, now, builds, hnow, hbare⟩ :=
    exists_buildsAs ok (by simp [besideModel, holding, asking, distinct]) hraw
  rcases run : Session.compile (besideModel id inner) {} with ⟨e | flow, t⟩
  · rw [run] at ok
    cases ok
  · exact ⟨flow, t, node, rfl, builds, Node.isFailed_of_bare hbare ▸ built now hnow⟩

end Level

/-- A model and a node inside that have the ids of those outside do not show outside. -/
theorem EditorGraph.nested_contained_borrowedIds :
    ∃ flow flow', (Session.compile (Level.besideModel "n" {}) {}).1 = .ok flow ∧
      (Session.compile (Level.besideModel "n" Level.borrowedIds) {}).1 = .ok flow' ∧
      flow.nodes.map (Json.redactedFields ["n"]) = flow'.nodes.map (Json.redactedFields ["n"]) ∧
      flow.resources = flow'.resources := by
  obtain ⟨flow, t, node, run, builds, built⟩ :=
    Level.exists_besideModel "n" {} (by decide) (by decide +kernel) (by decide +kernel)
  obtain ⟨flow', t', node', run', builds', built'⟩ :=
    Level.exists_besideModel "n" Level.borrowedIds (by decide) (by decide +kernel)
      (by decide +kernel)
  have off : ∀ id ∈ (Level.besideModel "n" {}).resources.map EditorNode.id,
      ¬ Relation.ReflTransGen t.registry.Nests id "n" := by
    have leaf : ∀ now ∈ (Session.compile (Level.besideModel "n" {}) {}).2.node? "m",
        now.members = [] := by decide +kernel
    rw [run] at leaf
    intro id hid h
    obtain rfl : id = "m" := List.mem_singleton.mp hid
    rcases h.cases_head with he | ⟨c, ⟨now, hnow, hc⟩, -⟩
    · exact absurd he (by decide)
    · simp [leaf now hnow] at hc
  obtain ⟨-, hnodes, -, hresources⟩ := EditorGraph.nested_contained
    (Level.sameButGraph_besideModel "n" {} Level.borrowedIds) (Level.selfContained_besideModel "n" {})
    run run' builds built builds' built'
  exact ⟨flow, flow', congrArg Prod.fst run, congrArg Prod.fst run', hnodes, hresources off⟩

/-- Under the id of a resource a sub-graph is emitted among the resources, with all that is embedded
in it. -/
theorem EditorGraph.nested_shows_among_resources :
    ∃ graph graph' : EditorGraph, ∃ a b flow flow' t t' node node',
      graph.SameButGraph graph' a b ∧ graph.SelfContained {} ∧
      Session.compile graph {} = (.ok flow, t) ∧ Session.compile graph' {} = (.ok flow', t') ∧
      Level.BuildsAs (Level.nestedCompiler 16) graph {} a node ∧ node.isFailed = false ∧
      Level.BuildsAs (Level.nestedCompiler 16) graph' {} b node' ∧ node'.isFailed = false ∧
      flow.resources ≠ flow'.resources := by
  obtain ⟨flow, t, node, run, builds, built⟩ :=
    Level.exists_besideModel "m" {} (by decide) (by decide +kernel) (by decide +kernel)
  obtain ⟨flow', t', node', run', builds', built'⟩ :=
    Level.exists_besideModel "m" Level.borrowedIds (by decide) (by decide +kernel)
      (by decide +kernel)
  have differ : (Session.compile (Level.besideModel "m" {}) {}).1.toOption.map Flow.resources ≠
      (Session.compile (Level.besideModel "m" Level.borrowedIds) {}).1.toOption.map
        Flow.resources := by decide +kernel
  rw [run, run'] at differ
  exact ⟨_, _, _, _, flow, flow', t, t', node, node',
    Level.sameButGraph_besideModel "m" {} Level.borrowedIds, Level.selfContained_besideModel "m" {},
    run, run', builds, built, builds', built', fun he => differ (congrArg some he)⟩

end WorkflowCompiler
