import WorkflowCompiler.Proofs.Compile.Building
import WorkflowCompiler.Proofs.Lockstep

/-!
# Phases of building

The resources of a level are built in turn and then checked, its nodes are built in turn after them,
and in the end all of these are registered. A node with a graph of its own enters that graph while
it is built.
-/
namespace WorkflowCompiler

open Step

namespace Node

/-- The node that comes to hold a graph; one that refers to an app says so. -/
def holder (node : Node) : Node :=
  if node.lowerKind = "app" ∨ node.lowerKind = "template" then node.referToApp node.appId else node

theorem resourceIds_holder (raw : EditorNode) (body : NodeBody) :
    ((ofEditor raw).holder.withBody body).resourceIds = [] := by
  unfold holder
  split <;> rfl

/-- What building a node with a graph of its own enters: how the graph is run, the graph, and the
session inside it. -/
def entrance (node : Node) (s : Session) :
    Except CompileError (SubgraphFlavor × EditorGraph × Session) := do
  let flavor ← node.flavor
  let graph ← nestedGraph s node
  let t ← s.enter node.appId
  return (flavor, graph, t)

theorem entrance_eq_ok {node : Node} {s t : Session} {flavor : SubgraphFlavor}
    {graph : EditorGraph} :
    node.entrance s = .ok (flavor, graph, t) ↔
      node.flavor = .ok flavor ∧ nestedGraph s node = .ok graph ∧ s.enter node.appId = .ok t := by
  unfold entrance
  simp only [bind_eq_ok, pure_eq_ok, Prod.mk.injEq]
  constructor
  · rintro ⟨_, hf, _, hg, _, ht, rfl, rfl, rfl⟩
    exact ⟨hf, hg, ht⟩
  · rintro ⟨hf, hg, ht⟩
    exact ⟨_, hf, _, hg, _, ht, rfl, rfl, rfl⟩

/-- The graph of a node depends on the surroundings of the session alone. -/
theorem nestedGraph_congr {s t : Session} (collaborators : t.collaborators = s.collaborators)
    (options : t.options = s.options) (node : Node) : nestedGraph t node = nestedGraph s node := by
  unfold nestedGraph
  rw [collaborators, options]

/-- A graph that is embedded in a node does not depend on the session. -/
theorem nestedGraph_embedded {node : Node} {value : Json}
    (h : (node.data.get? "config__patent_graph").filter (fun value => !value.isNull) = some value)
    (s : Session) : nestedGraph s node =
      (EditorGraph.decode value).mapError (node.unreadablePart "nested graph") := by
  unfold nestedGraph
  rw [h]

theorem run_buildNested (nested : NestedCompiler) (node : Node) (s : Session) :
    buildNested nested node s =
      match node.entrance s with
      | .error e => (.error e, s)
      | .ok (flavor, graph, t) =>
        match nested graph t with
        | (.error e, u) => (.error e, u.leave)
        | (.ok flow, u) => (.ok (node.holder.withBody (.subgraph flavor flow)), u.leave) := by
  -- noting the app changes nothing that the entrance looks at
  have hflavor : node.holder.flavor = node.flavor := by
    unfold holder
    split <;> rfl
  have hgraph : nestedGraph s node.holder = nestedGraph s node := by
    unfold holder
    split <;> rfl
  have happ : node.holder.appId = node.appId := by
    unfold holder
    split <;> rfl
  show (do
    let flavor ← node.holder.flavor
    let graph ← Build.ofSession fun s => nestedGraph s node.holder
    let compiled ← inside node.holder.appId (nested graph)
    return node.holder.withBody (.subgraph flavor compiled) : Build Node) s = _
  unfold entrance
  rw [run_bind, hflavor, run_lift]
  rcases node.flavor with e | flavor
  · rfl
  dsimp only
  rw [run_bind, run_ofSession, hgraph]
  rcases nestedGraph s node with e | graph
  · rfl
  dsimp only
  rw [run_bind, run_inside, happ]
  rcases s.enter node.appId with e | t
  · rfl
  · dsimp only
    rcases hrun : nested graph t with ⟨e | flow, u⟩
    · simp only [bind, Except.bind, pure, Except.pure, hrun]
    · simp only [bind, Except.bind, pure, Except.pure, hrun]
      rfl

/-- Two nodes are built alike when the graphs that they enter are compiled alike. -/
theorem lockstep_buildNested {nested : NestedCompiler} {a b : Node} {s s' : Session}
    {R : Node → Node → Prop} {P Q : Session → Session → Prop}
    (entered : Corresponds (fun p q => p.1 = q.1 ∧ Lockstep (nested p.2.1) (nested q.2.1) p.2.2 q.2.2
      Eq P fun e t t' => e.isRecoverable = true → P t t') (a.entrance s) (b.entrance s'))
    (holder : ∀ body, R (a.holder.withBody body) (b.holder.withBody body))
    (leave : ∀ {t t'}, P t t' → Q t.leave t'.leave) (same : Q s s') :
    Lockstep (buildNested nested a) (buildNested nested b) s s' R Q fun e t t' =>
      e.isRecoverable = true → Q t t' := by
  unfold Lockstep
  rw [run_buildNested, run_buildNested]
  generalize a.entrance s = x, b.entrance s' = y at entered
  cases entered with
  | error e => exact .error e fun _ => same
  | @ok p q related =>
    obtain ⟨flavor, inner, t⟩ := p
    obtain ⟨flavor', inner', t'⟩ := q
    obtain ⟨hflavor, compiled⟩ := related
    unfold Lockstep at compiled
    dsimp only at hflavor compiled ⊢
    generalize nested inner t = x, nested inner' t' = y at compiled
    cases compiled with
    | ok related after =>
      subst related hflavor
      exact .ok (holder _) (leave after)
    | error e after => exact .error e fun he => leave (after he)

end Node

/-- Whether building `raw` in `s` enters `graph`, in the session `t`. -/
def Session.Enters (s : Session) (raw : EditorNode) (graph : EditorGraph) (t : Session) : Prop :=
  NodeKind.ofName? (Text.lower raw.kind) = some .subgraph ∧
    ∃ flavor, (Node.ofEditor raw).entrance s = .ok (flavor, graph, t)

namespace Session

theorem Enters.within {s t : Session} {raw : EditorNode} {graph : EditorGraph}
    (h : s.Enters raw graph t) : t = s.within (Node.ofEditor raw).appId := by
  obtain ⟨-, flavor, h⟩ := h
  exact enter_eq_ok (Node.entrance_eq_ok.mp h).2.2

theorem Enters.reaches {s t : Session} {raw : EditorNode} {graph : EditorGraph}
    (h : s.Enters raw graph t) : s.Reaches t := by
  obtain ⟨-, flavor, h⟩ := h
  exact reaches_enter (Node.entrance_eq_ok.mp h).2.2

theorem Enters.sound {s t : Session} {raw : EditorNode} {graph : EditorGraph}
    (h : s.Enters raw graph t) (sound : s.Sound) : t.Sound := h.reaches.sound sound

end Session

namespace Node

/-- A node of a kind that needs no graph is built without touching the session. -/
theorem build_plain (nested : NestedCompiler) {raw : EditorNode} {kind : NodeKind}
    (hk : NodeKind.ofName? (Text.lower raw.kind) = some kind) (plain : kind ≠ .subgraph) :
    build nested raw = Build.ofSession fun s => buildPlain s.collaborators (ofEditor raw) kind := by
  unfold build
  dsimp only
  rw [show NodeKind.ofName? (ofEditor raw).lowerKind = some kind from hk]
  cases kind <;> first | exact absurd rfl plain | rfl

theorem build_subgraph (nested : NestedCompiler) {raw : EditorNode}
    (hk : NodeKind.ofName? (Text.lower raw.kind) = some .subgraph) :
    build nested raw = buildNested nested (ofEditor raw) := by
  unfold build
  dsimp only
  rw [show NodeKind.ofName? (ofEditor raw).lowerKind = some .subgraph from hk]

theorem build_unknown (nested : NestedCompiler) {raw : EditorNode}
    (hk : NodeKind.ofName? (Text.lower raw.kind) = none) :
    build nested raw = throw (.invalidNodeType raw.id raw.kind) := by
  unfold build
  dsimp only
  rw [show NodeKind.ofName? (ofEditor raw).lowerKind = none from hk]
  rfl

end Node

/-- What is built for a node that needs no graph of its own. -/
def EditorNode.builtPlain (raw : EditorNode) (c : Collaborators) : Except CompileError Node :=
  match NodeKind.ofName? (Text.lower raw.kind) with
  | none => .error (.invalidNodeType raw.id raw.kind)
  | some kind => Node.buildPlain c (Node.ofEditor raw) kind

/-- The same with its resources checked. -/
def EditorNode.checkedPlain (raw : EditorNode) (s : Session) : Except CompileError Node := do
  let node ← raw.builtPlain s.collaborators
  s.checkResources node
  return node

theorem Node.run_build_plain (nested : NestedCompiler) {raw : EditorNode}
    (plain : NodeKind.ofName? (Text.lower raw.kind) ≠ some .subgraph) (s : Session) :
    build nested raw s = (raw.builtPlain s.collaborators, s) := by
  unfold EditorNode.builtPlain
  rcases hk : NodeKind.ofName? (Text.lower raw.kind) with _ | kind
  · rw [build_unknown nested hk]
    rfl
  · rw [build_plain nested hk fun he => plain (he ▸ hk)]
    rfl

namespace Level

theorem run_orPlaceholder (raw : EditorNode) (step : Build Node) (s : Session) :
    orPlaceholder raw step s =
      match step s with
      | (.ok node, t) => (.ok node, t)
      | (.error e, t) =>
        if e.isRecoverable then (.ok (Node.placeholder raw e.message), t.recordFailure raw.id e)
        else (.error e, t) := rfl

/-- Stand-ins take the places of two nodes alike. -/
theorem lockstep_orPlaceholder {a b : EditorNode} {m m' : Build Node} {s s' : Session}
    {R : Node → Node → Prop} {Q : Session → Session → Prop}
    (h : Lockstep m m' s s' R Q fun e t t' => e.isRecoverable = true → Q t t')
    (standIn : ∀ reason, R (Node.placeholder a reason) (Node.placeholder b reason))
    (record : ∀ {e : CompileError} {t t' : Session}, e.isRecoverable = true → Q t t' →
      Q (t.recordFailure a.id e) (t'.recordFailure b.id e)) :
    Lockstep (orPlaceholder a m) (orPlaceholder b m') s s' R Q fun e _ _ =>
      e.isRecoverable = false := by
  unfold Lockstep at h ⊢
  rw [run_orPlaceholder, run_orPlaceholder]
  generalize m s = x, m' s' = y at h
  cases h with
  | ok related after => exact .ok related after
  | error e after =>
    by_cases he : e.isRecoverable = true
    · simp only [he, if_true]
      exact .ok (standIn _) (record he (after he))
    · simp only [he]
      exact .error e (by simpa using he)

theorem run_buildNode (nested : NestedCompiler) (raw : EditorNode) (s : Session) :
    buildNode nested raw s =
      match Node.build nested raw s with
      | (.ok node, t) =>
        match t.checkResources node with
        | .ok () => (.ok node, t)
        | .error e =>
          if e.isRecoverable then (.ok (Node.placeholder raw e.message), t.recordFailure raw.id e)
          else (.error e, t)
      | (.error e, t) =>
        if e.isRecoverable then (.ok (Node.placeholder raw e.message), t.recordFailure raw.id e)
        else (.error e, t) := by
  unfold buildNode
  rw [run_orPlaceholder, run_bind]
  rcases Node.build nested raw s with ⟨e | node, t⟩
  · rfl
  · unfold checked
    dsimp only
    rw [run_bind, run_ofSession]
    rcases t.checkResources node with e | _ <;> rfl

/-- What building comes to for a node that needs no graph: the node with its resources checked, or a
stand-in. -/
theorem run_buildNode_plain (nested : NestedCompiler) {raw : EditorNode}
    (plain : NodeKind.ofName? (Text.lower raw.kind) ≠ some .subgraph) (s : Session) :
    buildNode nested raw s =
      match raw.checkedPlain s with
      | .ok node => (.ok node, s)
      | .error e =>
        if e.isRecoverable then (.ok (Node.placeholder raw e.message), s.recordFailure raw.id e)
        else (.error e, s) := by
  rw [run_buildNode, Node.run_build_plain nested plain]
  unfold EditorNode.checkedPlain
  rcases raw.builtPlain s.collaborators with e | node
  · rfl
  · simp only [bind, Except.bind]
    rcases s.checkResources node with e | _ <;> rfl

/-- The resources of a level have been built and checked. -/
def Resourced (nested : NestedCompiler) (graph : EditorGraph) (s : Session)
    (resources : List Node) (t : Session) : Prop :=
  ∃ built u, (graph.resources.mapM (buildResource nested)) s = (.ok built, u) ∧
    ((graph.resources.zip built).mapM fun p => checkResource p.1 p.2 : Build (List Node)) u =
      (.ok resources, t)

theorem Resourced.unique {nested : NestedCompiler} {graph : EditorGraph} {s t t' : Session}
    {resources resources' : List Node} (h : Resourced nested graph s resources t)
    (h' : Resourced nested graph s resources' t') : resources = resources' ∧ t = t' := by
  obtain ⟨built, u, hbuilt, hresources⟩ := h
  obtain ⟨built', u', hbuilt', hresources'⟩ := h'
  obtain ⟨hb, rfl⟩ := Prod.mk.inj (hbuilt.symm.trans hbuilt')
  obtain rfl := Except.ok.inj hb
  obtain ⟨hr, rfl⟩ := Prod.mk.inj (hresources.symm.trans hresources')
  exact ⟨Except.ok.inj hr, rfl⟩

/-- A level that is built has gone through all phases of building. -/
theorem buildAll_eq_ok {nested : NestedCompiler} {graph : EditorGraph} {s t : Session} :
    buildAll nested graph s = (.ok (), t) ↔
      ∃ resources u nodes v, Resourced nested graph s resources u ∧
        (graph.nodes.mapM (buildNode nested)) u = (.ok nodes, v) ∧
        t = (v.registerAll resources).registerAll nodes := by
  unfold buildAll
  constructor
  · intro h
    obtain ⟨built, s₁, hbuilt, h⟩ := run_bind_eq_ok.mp h
    obtain ⟨resources, s₂, hresources, h⟩ := run_bind_eq_ok.mp h
    obtain ⟨nodes, s₃, hnodes, h⟩ := run_bind_eq_ok.mp h
    rw [Session.run_registers] at h
    exact ⟨resources, s₂, nodes, s₃, ⟨built, s₁, hbuilt, hresources⟩, hnodes,
      (Prod.mk.inj h).2.symm⟩
  · rintro ⟨resources, s₂, nodes, s₃, ⟨built, s₁, hbuilt, hresources⟩, hnodes, rfl⟩
    refine run_bind_eq_ok.mpr ⟨built, s₁, hbuilt, ?_⟩
    refine run_bind_eq_ok.mpr ⟨resources, s₂, hresources, ?_⟩
    refine run_bind_eq_ok.mpr ⟨nodes, s₃, hnodes, ?_⟩
    exact Session.run_registers _ _ _

/-- The session in which the building of a resource of a level begins. -/
def BeginsResource (nested : NestedCompiler) (graph : EditorGraph) (s : Session)
    (raw : EditorNode) (t : Session) : Prop :=
  ∃ before after built, graph.resources = before ++ raw :: after ∧
    (before.mapM (buildResource nested)) s = (.ok built, t)

/-- The session in which the building of a node of a level begins. -/
def BeginsNode (nested : NestedCompiler) (graph : EditorGraph) (s : Session) (raw : EditorNode)
    (t : Session) : Prop :=
  ∃ resources u before after built, Resourced nested graph s resources u ∧
    graph.nodes = before ++ raw :: after ∧ (before.mapM (buildNode nested)) u = (.ok built, t)

/-- What a node of a level is built as. -/
def BuildsAs (nested : NestedCompiler) (graph : EditorGraph) (s : Session) (raw : EditorNode)
    (node : Node) : Prop :=
  ∃ t u, BeginsNode nested graph s raw t ∧ buildNode nested raw t = (.ok node, u)

/-- A node that is listed only once begins after all nodes before it. -/
theorem BuildsAs.run {nested : NestedCompiler} {graph : EditorGraph} {s u v : Session}
    {raw : EditorNode} {node : Node} (h : BuildsAs nested graph s raw node)
    {before after : List EditorNode} (split : graph.nodes = before ++ raw :: after)
    (once : raw ∉ before ++ after) {resources nodes : List Node}
    (resourced : Resourced nested graph s resources u)
    (run : (graph.nodes.mapM (buildNode nested)) u = (.ok nodes, v)) :
    ∃ first rest t w, (before.mapM (buildNode nested)) u = (.ok first, t) ∧
      buildNode nested raw t = (.ok node, w) ∧
      (after.mapM (buildNode nested)) w = (.ok rest, v) ∧ nodes = first ++ node :: rest := by
  obtain ⟨t', w', ⟨resources', u', before', after', done, resourced', split', hdone⟩, hnode'⟩ := h
  obtain ⟨rfl, rfl⟩ := resourced.unique resourced'
  rw [List.mem_append, not_or] at once
  obtain ⟨rfl, -, rfl⟩ := (List.append_cons_inj_of_notMem once.1 once.2).mp (split.symm.trans split')
  rw [split] at run
  obtain ⟨first, more, t, hfirst, hmore, rfl⟩ := run_mapM_append_eq_ok.mp run
  obtain ⟨made, rest, w, hmade, hrest, rfl⟩ := run_mapM_cons_eq_ok.mp hmore
  obtain ⟨-, rfl⟩ := Prod.mk.inj (hdone.symm.trans hfirst)
  obtain ⟨hsame, rfl⟩ := Prod.mk.inj (hnode'.symm.trans hmade)
  obtain rfl := Except.ok.inj hsame
  exact ⟨first, rest, t', w', hfirst, hmade, hrest, rfl⟩

section Grows

open Session

variable {nested : NestedCompiler} (behaves : ∀ graph s, Behaves (nested graph) s)
  {graph : EditorGraph} {s t : Session}

include behaves

/-- A resource is registered as soon as it is built. -/
theorem registers_buildResource (raw : EditorNode) (s : Session) :
    Ensures (buildResource nested raw) s (fun node t => t.node? raw.id = some node)
      fun _ _ => True := by
  refine ((ensures_orPlaceholder_build behaves raw s).mono (fun _ _ h => h)
    fun _ _ _ => trivial).bind fun node t ht => ensures_registered ?_
  rw [← ht.1.id]
  exact Entries.get?_insert_self _ _ _

theorem Resourced.settles {resources : List Node} (h : Resourced nested graph s resources t) :
    s.Settles t := by
  obtain ⟨built, u, hbuilt, hresources⟩ := h
  obtain ⟨hfrom, hgrows, hclosed⟩ :=
    (ensures_buildResources behaves graph.resources s).of_ok hbuilt
  obtain ⟨-, hgrows', -, hclosed'⟩ := (ensures_checkResources hfrom u).of_ok hresources
  exact ⟨hgrows.trans hgrows', fun pending hs => hclosed' pending (hclosed pending hs)⟩

theorem Resourced.builtFrom {resources : List Node} (h : Resourced nested graph s resources t) :
    List.Forall₂ Node.BuiltFrom graph.resources resources := by
  obtain ⟨built, u, hbuilt, hresources⟩ := h
  obtain ⟨hfrom, -⟩ := (ensures_buildResources behaves graph.resources s).of_ok hbuilt
  exact ((ensures_checkResources hfrom u).of_ok hresources).1

theorem registers_buildResources (resources : List EditorNode) (s : Session) :
    Ensures (resources.mapM (buildResource nested)) s
      (fun _ t => ∀ raw ∈ resources, t.registry.contains raw.id = true) fun _ _ => True := by
  let inv (done : List EditorNode) (_ : List Node) (t : Session) : Prop :=
    ∀ raw ∈ done, t.registry.contains raw.id = true
  refine ensures_mapM inv ?_ (by simp [inv])
  intro before raw after nodes t _ ht
  refine ((ensures_buildResource behaves raw t).and (registers_buildResource behaves raw t)).mono
    (fun node v hv other hother => ?_) fun _ _ _ => trivial
  rcases List.mem_append.mp hother with hother | hother
  · exact hv.1.2.1.registered _ (ht other hother)
  · exact List.mem_singleton.mp hother ▸ Entries.contains_of_get? hv.2

/-- The resources of a level are registered before its nodes are built. -/
theorem Resourced.registers {resources : List Node} (h : Resourced nested graph s resources t) :
    ∀ raw ∈ graph.resources, t.registry.contains raw.id = true := by
  obtain ⟨built, u, hbuilt, hresources⟩ := h
  have registered := (registers_buildResources behaves graph.resources s).of_ok hbuilt
  obtain ⟨hfrom, -⟩ := (ensures_buildResources behaves graph.resources s).of_ok hbuilt
  obtain ⟨-, hgrows, -⟩ := (ensures_checkResources hfrom u).of_ok hresources
  exact fun raw hraw => hgrows.registered raw.id (registered raw hraw)

theorem BeginsResource.grows {raw : EditorNode} (h : BeginsResource nested graph s raw t) :
    s.Grows t := by
  obtain ⟨before, after, built, -, run⟩ := h
  exact ((ensures_buildResources behaves before s).of_ok run).2.1

theorem BeginsNode.settles {raw : EditorNode} (h : BeginsNode nested graph s raw t) :
    s.Settles t := by
  obtain ⟨resources, u, before, after, built, hresourced, -, run⟩ := h
  exact (hresourced.settles behaves).trans ((ensures_buildNodes behaves before u).of_ok run).2.1

omit behaves in
theorem exists_begins {built : Session} (building : buildAll nested graph s = (.ok (), built))
    {raw : EditorNode} (h : raw ∈ graph.nodes) : ∃ t, BeginsNode nested graph s raw t := by
  obtain ⟨resources, u, nodes, v, resourced, hnodes, -⟩ := buildAll_eq_ok.mp building
  obtain ⟨before, after, split⟩ := List.append_of_mem h
  rw [split] at hnodes
  obtain ⟨first, rest, t, hfirst, -⟩ := run_mapM_append_eq_ok.mp hnodes
  exact ⟨t, resources, u, before, after, first, resourced, split, hfirst⟩

/-- Where a level is built, a node whose building begins is built. -/
theorem BeginsNode.exists_built {built : Session} (building : buildAll nested graph s = (.ok (), built))
    {raw : EditorNode} (h : BeginsNode nested graph s raw t) :
    ∃ node u, buildNode nested raw t = (.ok node, u) ∧
      ((graph.nodes.map EditorNode.id).Nodup → built.node? raw.id = some node) := by
  obtain ⟨resources, u, nodes, v, resourced, hnodes, rfl⟩ := buildAll_eq_ok.mp building
  obtain ⟨resources', u', before, after, done, resourced', hsplit, run⟩ := h
  obtain ⟨rfl, rfl⟩ := resourced.unique resourced'
  have hbuilt := ((ensures_buildNodes behaves graph.nodes u).of_ok hnodes).1
  rw [hsplit] at hnodes hbuilt
  obtain ⟨first, rest, t', hfirst, hrest, rfl⟩ := run_mapM_append_eq_ok.mp hnodes
  obtain ⟨-, rfl⟩ := Prod.mk.inj (run.symm.trans hfirst)
  obtain ⟨node, others, t', hnode, -, rfl⟩ := run_mapM_cons_eq_ok.mp hrest
  refine ⟨node, t', hnode, fun nodup => ?_⟩
  have ids := Session.ids_of_builtFrom hbuilt
  rw [← hsplit] at ids
  have hid : node.id = raw.id := (((ensures_buildNode behaves raw t).of_ok hnode).1).id
  rw [← hid, Session.node?_registerAll, Session.find?_reverse_of_nodup (ids ▸ nodup) (by simp)]
  rfl

end Grows

end Level

end WorkflowCompiler
