import WorkflowCompiler.Proofs.Compile.Containment
import WorkflowCompiler.Proofs.Compile.Scoping

/-!
# Siblings

All graphs of a compile share one registry, and the resources of a level are registered once more
only when all its nodes have been built. Until then a sub-graph finds them as they are declared
unless a sub-graph before it has declared one of their ids. Where none declares the id of a resource
that a sub-graph takes from its level, what is compiled into this sub-graph does not depend on the
sub-graphs before it. Resources of the level which it does not take may be hidden from it.
-/
namespace WorkflowCompiler

open Step

/-- Whether a node stands before another among the nodes of a level. -/
def EditorGraph.ListsBefore (graph : EditorGraph) (other raw : EditorNode) : Prop :=
  ∃ before after, graph.nodes = before ++ raw :: after ∧ other ∈ before

/-- Ids of resources of a level, and with a resource the ids of all that it names. -/
structure EditorGraph.Lends (c : Collaborators) (graph : EditorGraph) (taken : Set String) :
    Prop where
  declared : ∀ id ∈ taken, id ∈ graph.resources.map EditorNode.id
  named : ∀ r ∈ graph.resources, r.id ∈ taken → ∀ x ∈ r.named c, x ∈ taken

/-- Whether all graphs in a node leave these ids alone. -/
def EditorNode.Spares (c : Collaborators) (o : Options) (taken : Set String) (other : EditorNode) :
    Prop :=
  ∀ inner, other.Embeds c o inner → ∀ id ∈ inner.declaredInside c o, id ∉ taken

namespace Level

open Session

/-- Whether what is held under an id comes from the resource of the level with this id alone. -/
def Own (graph : EditorGraph) (c : Collaborators) (t : Session) (id : String) : Prop :=
  ∀ node, t.node? id = some node →
    node.members = [] ∧ ∃ raw ∈ graph.resources, raw.id = id ∧ node.NamesAs raw c

section Resources

variable {room : Nat} {graph : EditorGraph} {s t : Session} {taken : Set String}

theorem own_register {c : Collaborators} {t : Session} {id : String} {node : Node}
    (own : id ≠ node.id → Own graph c t id) (members : node.members = []) {raw : EditorNode}
    (hraw : raw ∈ graph.resources) (same : node.id = raw.id) (named : node.NamesAs raw c) :
    Own graph c (t.register node) id := by
  intro held hheld
  obtain ⟨rfl, rfl⟩ | ⟨hne, hheld⟩ := node?_register_cases hheld
  · exact ⟨members, raw, hraw, same.symm, named⟩
  · exact own hne held hheld

/-- What is held under the taken ids of resources that have been built comes from the level, unless a
graph inside has declared one of these ids. -/
theorem own_buildResources
    (spares : ∀ other ∈ graph.resources, other.Spares s.collaborators s.options taken) :
    Ensures (graph.resources.mapM (buildResource (nestedCompiler room))) s
      (fun _ v => ∀ id ∈ graph.resources.map EditorNode.id, id ∈ taken →
        Own graph s.collaborators v id) fun _ _ => True := by
  have behaves := behaves_nestedCompiler room
  let inv (done : List EditorNode) (_ : List Node) (v : Session) : Prop :=
    v.collaborators = s.collaborators ∧ v.options = s.options ∧
      ∀ id ∈ done.map EditorNode.id, id ∈ taken → Own graph s.collaborators v id
  refine (ensures_mapM inv ?_ ⟨rfl, rfl, by simp⟩).mono (fun _ _ h => h.2.2) fun _ _ h => h
  rintro before raw after nodes v split ⟨hc, ho, hown⟩
  have hraw : raw ∈ graph.resources := by simp [split]
  -- the resource itself, and what the graphs inside declare
  let ids : Set String := {id | id = raw.id ∨ id ∉ taken}
  have kept := keeps_buildResource behaves (keeps_nestedCompiler room) ids raw v (.inl rfl)
    fun inner h id hid => by
      rw [hc, ho] at h hid
      exact .inr (spares raw hraw inner h id hid)
  have names := namesAs_buildResource (nestedCompiler room) raw v
  rw [hc] at names
  refine ((kept.and ((ensures_buildResource behaves raw v).and
    (registers_buildResource behaves raw v))).and names).mono
    (fun node w h => ?_) fun _ _ _ => trivial
  obtain ⟨⟨hoff, ⟨hfrom, -⟩, hheld⟩, hnames⟩ := h
  refine ⟨hoff.collaborators.trans hc, hoff.options.trans ho, fun id hid htaken made hmade => ?_⟩
  by_cases he : id = raw.id
  · subst he
    obtain rfl := Option.some.inj (hheld.symm.trans hmade)
    exact ⟨hfrom.members, raw, hraw, rfl, hnames⟩
  · rw [List.map_append, List.mem_append] at hid
    have hid := hid.resolve_right (by simpa using he)
    rw [hoff.node? id (not_or.mpr ⟨he, fun hno => hno htaken⟩)] at hmade
    exact hown id hid htaken made hmade

/-- A resource that does not pass its check is replaced under its own id. -/
theorem own_checkResources {c : Collaborators} {built : List Node}
    (own : ∀ id ∈ taken, Own graph c s id) :
    Keeps ((graph.resources.zip built).mapM fun p => checkResource p.1 p.2 : Build (List Node)) s
      fun v => ∀ id ∈ taken, Own graph c v id := by
  refine keeps_mapM (fun p hp v hv => ?_) own
  exact ensures_checked_or_replaced (fun _ => hv) fun e _ id hid =>
    own_register (t := v.recordFailure p.1.id e) (fun _ => hv id hid)
      (Node.builtFrom_placeholder p.1 e.message).members (List.of_mem_zip hp).1 rfl
      (Node.namesAs_placeholder p.1 _ e.message)

theorem Resourced.own {resources : List Node}
    (resourced : Resourced (nestedCompiler room) graph s resources t)
    (lends : graph.Lends s.collaborators taken)
    (spares : ∀ other ∈ graph.resources, other.Spares s.collaborators s.options taken) :
    ∀ id ∈ taken, Own graph s.collaborators t id := by
  obtain ⟨built, u, hbuilt, hresources⟩ := resourced
  have own := (own_buildResources spares).of_ok hbuilt
  exact (own_checkResources fun id hid => own id (lends.declared id hid) hid).of_ok hresources

end Resources

section Nodes

variable {room : Nat} {graph graph' : EditorGraph} {s t : Session} {raw : EditorNode}
  {taken : Set String}

/-- When a node begins, what is held under the taken ids is as it was when the resources had been
built, unless a graph in a node before it has declared one of them. -/
theorem BeginsNode.same_resources (begins : BeginsNode (nestedCompiler room) graph s raw t)
    (spares : ∀ other, graph.ListsBefore other raw →
      other.Spares s.collaborators s.options taken)
    {resources : List Node} {u : Session}
    (resourced : Resourced (nestedCompiler room) graph s resources u) :
    ∀ id ∈ taken, t.node? id = u.node? id := by
  obtain ⟨resources', u', before, after, built, resourced', split, run⟩ := begins
  obtain ⟨rfl, rfl⟩ := resourced.unique resourced'
  have settles := resourced.settles (behaves_nestedCompiler room)
  let ids : Set String := {id | id ∉ taken}
  have kept : Keeps (before.mapM (buildNode (nestedCompiler room))) u (u.SameOff ids) := by
    refine keeps_mapM (fun other hother v hv => hv.keeps ?_) (.refl ids u)
    refine keeps_buildNode (keeps_nestedCompiler room) ids other v fun inner h id hid => ?_
    rw [hv.collaborators, hv.options, settles.collaborators, settles.options] at h hid
    exact spares other ⟨before, after, split, hother⟩ inner h id hid
  exact fun id hid => (kept.of_ok run).node? id fun hno => hno hid

/-- Two sessions in which a node begins hold the same under the taken ids, whatever has been built
before it there. -/
theorem linked_of_begins (sound : s.Sound) (same : graph'.resources = graph.resources)
    (lends : graph.Lends s.collaborators taken)
    (spares : ∀ other, other ∈ graph.resources ∨ graph.ListsBefore other raw ∨
      graph'.ListsBefore other raw → other.Spares s.collaborators s.options taken) {t' : Session}
    (begins : BeginsNode (nestedCompiler room) graph s raw t)
    (begins' : BeginsNode (nestedCompiler room) graph' s raw t') :
    t.Linked s.collaborators s.options taken taken t' := by
  have behaves := behaves_nestedCompiler room
  have settles := begins.settles behaves
  have settles' := begins'.settles behaves
  obtain ⟨resources, u, resourced⟩ : ∃ resources u,
      Resourced (nestedCompiler room) graph s resources u := by
    obtain ⟨resources, u, -, -, -, resourced, -⟩ := begins
    exact ⟨resources, u, resourced⟩
  have resourced' : Resourced (nestedCompiler room) graph' s resources u := by
    unfold Resourced at resourced ⊢
    rwa [same]
  have held := begins.same_resources (fun other h => spares other (.inr (.inl h))) resourced
  have held' := begins'.same_resources (fun other h => spares other (.inr (.inr h))) resourced'
  have fresh := resourced.own lends fun other h => spares other (.inl h)
  refine ⟨settles.collaborators, settles'.collaborators, settles.options, settles'.options,
    settles'.nesting.trans settles.nesting.symm, settles.sound sound, settles'.sound sound,
    fun id hid => (held' id hid).trans (held id hid).symm, fun id hid node hn m hm => ?_,
    fun id hid node hn x hx => ?_⟩
  · rw [held id hid] at hn
    rw [(fresh id hid node hn).1] at hm
    cases hm
  · rw [held id hid] at hn
    obtain ⟨-, r, hr, rfl, named⟩ := fresh id hid node hn
    exact lends.named r hr hid x (named x hx)

end Nodes

/-- What is compiled into a sub-graph does not depend on the sub-graphs before it, as long as these
declare no id that its graph takes from the level. The graph uses what it declares and what it
takes, and with a resource of the level it takes all that this one names. -/
theorem built_apart_from_siblings {room : Nat} {graph graph' : EditorGraph} {s : Session}
    (sound : s.Sound) (same : graph'.resources = graph.resources) {taken : Set String}
    (lends : graph.Lends s.collaborators taken) {raw : EditorNode} (kind : raw.HasGraph)
    (uses : ∀ inner, raw.Embeds s.collaborators s.options inner →
      inner.Scoped s.collaborators s.options room taken)
    (spares : ∀ other, other ∈ graph.resources ∨ graph.ListsBefore other raw ∨
      graph'.ListsBefore other raw → other.Spares s.collaborators s.options taken)
    {node node' : Node} (builds : BuildsAs (nestedCompiler room) graph s raw node)
    (builds' : BuildsAs (nestedCompiler room) graph' s raw node') : node = node' := by
  obtain ⟨t, u, begins, run⟩ := builds
  obtain ⟨t', u', begins', run'⟩ := builds'
  have linked := linked_of_begins sound same lends spares begins begins'
  have built := lockstep_buildNode (steadies_nestedCompiler s.collaborators s.options room) uses
    subset_rfl (fun x hx => by simp [EditorNode.named_of_hasGraph kind] at hx) linked
  exact (built.of_ok run run').1

/-- A graph with a model of its own. -/
def ownModel (id : String) : EditorGraph where
  resources := [keyedModel id "inner"]

/-- A graph with a node that asks a model of the graph around it. -/
def outerModel : EditorGraph where
  nodes := [asking "p" "m"]

/-- A graph with a model and these nodes. -/
def aroundModel (nodes : List EditorNode) : EditorGraph where
  nodes := nodes
  resources := [keyedModel "m" "outer"]

/-- A graph with two models and these nodes. -/
def aroundModels (nodes : List EditorNode) : EditorGraph where
  nodes := nodes
  resources := [keyedModel "m" "outer", keyedModel "k" "outer"]

theorem eq_of_embeds_holding {id : String} {graph inner : EditorGraph} {c : Collaborators}
    {o : Options} (decoded : (EditorGraph.decode graph.encode).toOption = some graph)
    (h : (holding id graph).Embeds c o inner) : inner = graph :=
  (Except.ok.inj ((nestedGraph_holding id decoded _).symm.trans h.2)).symm

/-- A graph without graphs inside spares the ids that it does not declare. -/
theorem spares_holding {id : String} {graph : EditorGraph} {c : Collaborators} {o : Options}
    {taken : Set String} (decoded : (EditorGraph.decode graph.encode).toOption = some graph)
    (plain : ∀ raw ∈ graph.nodes ++ graph.resources, ¬ raw.HasGraph)
    (apart : ∀ raw ∈ graph.nodes ++ graph.resources, raw.id ∉ taken) :
    (holding id graph).Spares c o taken := by
  intro inner h x hx
  obtain rfl := eq_of_embeds_holding decoded h
  rw [EditorGraph.declaredInside_of_plain plain] at hx
  rcases hx with hx | hx
  all_goals
    obtain ⟨raw, hraw, rfl⟩ := List.mem_map.mp hx
    exact apart raw (by simp [hraw])

theorem scoped_outerModel {id : String} {scope : Set String} (known : "m" ∈ scope) (room : Nat) :
    ∀ inner, (holding id outerModel).Embeds {} {} inner → inner.Scoped {} {} room scope := by
  have names : ∀ raw ∈ outerModel.nodes ++ outerModel.resources, ∀ x ∈ raw.named {}, x = "m" := by
    decide +kernel
  intro inner h
  obtain rfl := eq_of_embeds_holding (by decide +kernel) h
  exact EditorGraph.scoped_of_plain (by decide +kernel)
    (fun raw hraw x hx => .inl (names raw hraw x hx ▸ known)) room

/-- A sub-graph before it that hides a model which it does not ask makes no difference. -/
theorem built_apart_from_siblings_otherModel :
    let around := aroundModels [holding "a" (ownModel "k"), holding "n" outerModel]
    let alone := aroundModels [holding "n" outerModel]
    ∃ node, BuildsAs (nestedCompiler 16) around {} (holding "n" outerModel) node ∧
      BuildsAs (nestedCompiler 16) alone {} (holding "n" outerModel) node := by
  intro around alone
  have ok : (compile (nestedCompiler 16) around {}).1.isOk = true := by decide +kernel
  have ok' : (compile (nestedCompiler 16) alone {}).1.isOk = true := by decide +kernel
  have mem : holding "n" outerModel ∈ around.nodes := by simp [around, aroundModels]
  have mem' : holding "n" outerModel ∈ alone.nodes := by simp [alone, aroundModels]
  obtain ⟨node, -, builds, -⟩ := exists_buildsAs ok (by decide +kernel) mem
  obtain ⟨node', -, builds', -⟩ := exists_buildsAs ok' (by decide +kernel) mem'
  let taken : Set String := {"m"}
  have lends : around.Lends {} taken := by
    have names : ∀ r ∈ around.resources, r.named {} = [] := by decide +kernel
    constructor
    · rintro id rfl
      decide +kernel
    · intro r hr _ x hx
      simp [names r hr] at hx
  have first : (holding "a" (ownModel "k")).Spares {} {} taken :=
    spares_holding (by decide +kernel) (by decide +kernel) (by decide +kernel)
  have second : (holding "n" outerModel).Spares {} {} taken :=
    spares_holding (by decide +kernel) (by decide +kernel) (by decide +kernel)
  have plain : ∀ r ∈ around.resources, ¬ r.HasGraph := by decide +kernel
  have spares : ∀ other, other ∈ around.resources ∨
      around.ListsBefore other (holding "n" outerModel) ∨
      alone.ListsBefore other (holding "n" outerModel) → other.Spares {} {} taken := by
    rintro other (h | ⟨before, after, h, hother⟩ | ⟨before, after, h, hother⟩)
    · exact fun inner hinner => absurd hinner.1 (plain other h)
    · have hmem : other ∈ around.nodes := by simp [h, hother]
      rcases List.mem_pair.mp hmem with rfl | rfl
      exacts [first, second]
    · have hmem : other ∈ alone.nodes := by simp [h, hother]
      obtain rfl := List.mem_singleton.mp hmem
      exact second
  have same : alone.resources = around.resources := rfl
  obtain rfl : node = node' := built_apart_from_siblings (Session.sound_fresh {} {}) same lends
    (hasGraph_holding "n" outerModel) (scoped_outerModel (Set.mem_singleton "m") 16) spares builds
    builds'
  exact ⟨node, builds, builds'⟩

/-- The flow that is held for a sub-graph when a graph has been compiled. -/
def heldFlow? (graph : EditorGraph) (id : String) : Option Flow :=
  ((compile (nestedCompiler 16) graph {}).2.node? id).bind fun now => now.body.compiled?

/-- Where the nodes have distinct ids, the flow that is held for one of them is the one that was
compiled into it. -/
theorem exists_compiled {graph : EditorGraph} {raw : EditorNode} {flow : Flow}
    (ok : (compile (nestedCompiler 16) graph {}).1.isOk = true)
    (distinct : (graph.nodes.map EditorNode.id).Nodup) (h : raw ∈ graph.nodes)
    (held : heldFlow? graph raw.id = some flow) :
    ∃ node, BuildsAs (nestedCompiler 16) graph {} raw node ∧ node.body.compiled? = some flow := by
  obtain ⟨node, now, builds, hnow, hbare⟩ := exists_buildsAs ok distinct h
  refine ⟨node, builds, ?_⟩
  rw [← Node.compiled?_of_bare hbare]
  simpa [heldFlow?, hnow] using held

/-- A sub-graph that declares a model under the id of the one around it hides it from the sub-graphs
after it: what is compiled into them depends on the order of the nodes. -/
theorem sibling_hides_resource :
    let raw := holding "n" outerModel
    let graph := aroundModel [raw, holding "a" (ownModel "m")]
    let graph' := aroundModel [holding "a" (ownModel "m"), raw]
    (∀ inner, raw.Embeds {} {} inner →
      inner.Scoped {} {} 16 {x | x ∈ graph.resources.map EditorNode.id}) ∧
    (compile (nestedCompiler 16) graph {}).1.isOk = true ∧
    (compile (nestedCompiler 16) graph' {}).1.isOk = true ∧
    ∃ node node' flow flow', BuildsAs (nestedCompiler 16) graph {} raw node ∧
      BuildsAs (nestedCompiler 16) graph' {} raw node' ∧
      node.body.compiled? = some flow ∧ node'.body.compiled? = some flow' ∧ flow ≠ flow' := by
  intro raw graph graph'
  have ok : (compile (nestedCompiler 16) graph {}).1.isOk = true := by decide +kernel
  have ok' : (compile (nestedCompiler 16) graph' {}).1.isOk = true := by decide +kernel
  have mem : raw ∈ graph.nodes := by simp [graph, aroundModel]
  have mem' : raw ∈ graph'.nodes := by simp [graph', aroundModel]
  have differ : heldFlow? graph "n" ≠ heldFlow? graph' "n" ∧ heldFlow? graph "n" ≠ none ∧
      heldFlow? graph' "n" ≠ none := by decide +kernel
  obtain ⟨flow, held⟩ := Option.ne_none_iff_exists'.mp differ.2.1
  obtain ⟨flow', held'⟩ := Option.ne_none_iff_exists'.mp differ.2.2
  obtain ⟨node, builds, compiled⟩ := exists_compiled ok (by decide +kernel) mem held
  obtain ⟨node', builds', compiled'⟩ := exists_compiled ok' (by decide +kernel) mem' held'
  have known : "m" ∈ graph.resources.map EditorNode.id := by decide +kernel
  refine ⟨scoped_outerModel known 16, ok, ok', node, node', flow, flow', builds, builds', compiled,
    compiled', fun he => differ.1 ?_⟩
  rw [held, held', he]

end Level

end WorkflowCompiler
