import Mathlib.Data.List.Induction
import WorkflowCompiler.Proofs.Compile.Naming
import WorkflowCompiler.Proofs.Compile.Remaining
import WorkflowCompiler.Proofs.Compile.Showing
import WorkflowCompiler.Proofs.Node.Depending

/-!
# Resources of a flow

A flow lists the services that a level declares and then all that its nodes depend on, each once. A
resource comes after what it depends on, except for what depends on it in turn.
-/
namespace WorkflowCompiler

open Relation Step

/-- Lists can be merged, each element staying where it is met first. -/
theorem DepsFirst.merge {α : Type} [DecidableEq α] {depends : α → α → Prop} {xs ys : List α}
    (h : DepsFirst depends xs) (h' : DepsFirst depends ys) :
    DepsFirst depends (Wiring.appendNew xs ys) := by
  induction ys using List.reverseRecOn with
  | nil => exact h
  | append_singleton ys y ih =>
    have hys := ih h'.left
    rw [Wiring.appendNew_append]
    show DepsFirst depends (if y ∈ Wiring.appendNew xs ys then _ else _)
    split
    · exact hys
    · refine hys.concat fun d hd => (h' ys y [] rfl d hd).imp_left fun hin => ?_
      exact Wiring.mem_appendNew.mpr (.inr hin)

/-- Whether the node registered under an id is of a kind that is always emitted. -/
def Session.serves (s : Session) (id : String) : Bool :=
  (s.node? id).any fun node => Flattening.alwaysEmitted.contains node.lowerKind

theorem Session.serves_of_node? {s : Session} {id : String} {node : Node}
    (h : s.node? id = some node) :
    s.serves id = Flattening.alwaysEmitted.contains node.lowerKind := by
  unfold serves
  rw [h, Option.any_some]

namespace Flattening

namespace Resources

/-- The ids of the resources that have been emitted. -/
def ids (r : Resources) : List String := r.seen.reverse

/-- Whether each resource is what is emitted for the node under its id. -/
def Lists (s : Session) (r : Resources) : Prop := List.Forall₂ s.EmitsAs r.ids r.emitted

variable {s : Session} {r r' : Resources} {id : String}

theorem lists_add (h : r.Lists s) {fields : JsonObject} (emits : s.EmitsAs id fields) :
    (addResource r (id, fields)).Lists s ∧
      (addResource r (id, fields)).ids = Wiring.appendNew r.ids [id] := by
  have hmem : id ∈ r.ids ↔ id ∈ r.seen := List.mem_reverse
  unfold addResource
  by_cases hseen : id ∈ r.seen
  · rw [if_pos (by simpa using hseen)]
    exact ⟨h, by simp [Wiring.appendNew, hmem, hseen]⟩
  · rw [if_neg (by simpa using hseen)]
    have hids : (Resources.mk (id :: r.seen) (r.emitted ++ [fields])).ids = r.ids ++ [id] :=
      List.reverse_cons
    refine ⟨?_, by simp [hids, Wiring.appendNew, hmem, hseen]⟩
    unfold Lists
    rw [hids]
    exact List.rel_append h (.cons emits .nil)

theorem lists_addAll {entries : List (String × JsonObject)}
    (emits : ∀ e ∈ entries, s.EmitsAs e.1 e.2) (h : r.Lists s) :
    (entries.foldl addResource r).Lists s ∧
      (entries.foldl addResource r).ids = Wiring.appendNew r.ids (entries.map Prod.fst) := by
  induction entries generalizing r with
  | nil => exact ⟨h, rfl⟩
  | cons e entries ih =>
    obtain ⟨first, rest⟩ := List.forall_mem_cons.mp emits
    obtain ⟨h', hids⟩ := lists_add h first
    obtain ⟨h'', hids'⟩ := ih rest h'
    refine ⟨h'', hids'.trans ?_⟩
    rw [hids, ← Wiring.appendNew_append]
    rfl

/-- A declared resource is emitted if it is of a kind that is always emitted. -/
theorem lists_emitDeclared (h : r.Lists s) (run : emitDeclared s r id = .ok r') :
    r'.Lists s ∧ r'.ids = Wiring.appendNew r.ids ([id].filter s.serves) := by
  obtain ⟨resource, hn, run⟩ := bind_eq_ok.mp run
  have hn := lookup_eq_ok.mp hn
  have hserves := Session.serves_of_node? hn
  split at run
  · next hnew =>
    obtain ⟨hkind, hseen⟩ : alwaysEmitted.contains resource.lowerKind = true ∧ id ∉ r.seen := by
      simpa using hnew
    obtain ⟨fields, hfields, run⟩ := bind_eq_ok.mp run
    obtain rfl := pure_eq_ok.mp run
    have hadd : addResource r (id, fields) = ⟨id :: r.seen, r.emitted ++ [fields]⟩ := by
      simp [addResource, hseen]
    rw [List.filter_cons_of_pos (hserves.trans hkind), List.filter_nil, ← hadd]
    exact lists_add h ⟨resource, hn, hfields⟩
  · next hold =>
    obtain rfl := pure_eq_ok.mp run
    refine ⟨h, ?_⟩
    by_cases hkind : alwaysEmitted.contains resource.lowerKind = true
    · have hmem : resource.lowerKind ∈ alwaysEmitted := List.contains_iff_mem.mp hkind
      have hseen : id ∈ r.ids := List.mem_reverse.mpr (by simpa [hmem] using hold)
      rw [List.filter_cons_of_pos (hserves.trans hkind), List.filter_nil]
      simp [Wiring.appendNew, hseen]
    · rw [List.filter_cons_of_neg (hserves ▸ hkind)]
      rfl

theorem lists_declared {declared : List String} (h : r.Lists s)
    (run : declared.foldlM (emitDeclared s) r = .ok r') :
    r'.Lists s ∧ r'.ids = Wiring.appendNew r.ids (declared.filter s.serves) := by
  induction declared generalizing r with
  | nil =>
    obtain rfl := pure_eq_ok.mp run
    exact ⟨h, rfl⟩
  | cons id declared ih =>
    rw [List.foldlM_cons] at run
    obtain ⟨r₁, first, run⟩ := bind_eq_ok.mp run
    obtain ⟨h₁, hids⟩ := lists_emitDeclared h first
    obtain ⟨h', hids'⟩ := ih h₁ run
    refine ⟨h', hids'.trans ?_⟩
    rw [hids, ← Wiring.appendNew_append, ← List.filter_append]
    rfl

theorem lists_emitUsed (h : r.Lists s) (run : emitUsed s r id = .ok r') :
    r'.Lists s ∧ ∃ entries,
      Registry.Resolves s.registry s.options.defaultEnableBackflow id entries ∧
      r'.ids = Wiring.appendNew r.ids (entries.map Prod.fst) := by
  obtain ⟨node, hn, run⟩ := bind_eq_ok.mp run
  obtain ⟨entries, hentries, run⟩ := bind_eq_ok.mp run
  obtain rfl := pure_eq_ok.mp run
  have resolves := Registry.resolves_of_resourcesOf (lookup_eq_ok.mp hn) hentries
  obtain ⟨h', hids⟩ := lists_addAll resolves.emits h
  exact ⟨h', entries, resolves, hids⟩

end Resources

/-- The ids of a flow's resources when those that some nodes depend on have been added to the
services. -/
structure Gathers (r : Registry) (services done ids : List String) : Prop where
  nodup : ids.Nodup
  leads : services <+: ids
  mem : ∀ x, x ∈ ids ↔ x ∈ services ∨ ∃ id ∈ done, TransGen r.DependsOn id x
  first : DepsFirst r.DependsOn ids

theorem Gathers.next {r : Registry} {services done ids : List String}
    (h : Gathers r services done ids) {backflow : Bool} {id : String}
    {entries : List (String × JsonObject)} (resolves : Registry.Resolves r backflow id entries) :
    Gathers r services (done ++ [id]) (Wiring.appendNew ids (entries.map Prod.fst)) where
  nodup := Wiring.nodup_appendNew h.nodup
  leads := h.leads.trans (Wiring.prefix_appendNew _ _)
  mem := by
    intro x
    rw [Wiring.mem_appendNew, h.mem, resolves.mem]
    simp only [List.mem_append, List.mem_singleton]
    grind
  first := h.first.merge resolves.first

theorem gathers_used {s : Session} {r r' : Resources} {services done left : List String}
    (lists : r.Lists s) (h : Gathers s.registry services done r.ids)
    (run : left.foldlM (emitUsed s) r = .ok r') :
    r'.Lists s ∧ Gathers s.registry services (done ++ left) r'.ids := by
  induction left generalizing r done with
  | nil =>
    obtain rfl := pure_eq_ok.mp run
    exact ⟨lists, by simpa using h⟩
  | cons id left ih =>
    rw [List.foldlM_cons] at run
    obtain ⟨r₁, first, run⟩ := bind_eq_ok.mp run
    obtain ⟨lists₁, entries, resolves, hids⟩ := Resources.lists_emitUsed lists first
    rw [← List.singleton_append, ← List.append_assoc]
    exact ih lists₁ (hids ▸ h.next resolves) run

/-- What a flow lists when the services do not depend on anything. -/
theorem gathers_of_flow {s : Session} {w : Wiring} {order declared : List String} {flow : Flow}
    (h : Flattening.flow s w order declared = .ok flow) (distinct : declared.Nodup)
    (bare : ∀ id ∈ declared, s.serves id = true → ∀ d, ¬ s.registry.DependsOn id d) :
    ∃ ids, List.Forall₂ s.EmitsAs ids flow.resources ∧
      Gathers s.registry (declared.filter s.serves) (order.filter w.contains) ids := by
  unfold Flattening.flow at h
  obtain ⟨parts, -, h⟩ := bind_eq_ok.mp h
  obtain ⟨r, hdeclared, h⟩ := bind_eq_ok.mp h
  obtain ⟨r', hused, h⟩ := bind_eq_ok.mp h
  obtain rfl := pure_eq_ok.mp h
  have start : ({} : Resources).Lists s := .nil
  obtain ⟨lists, hids⟩ := Resources.lists_declared start hdeclared
  have hids : r.ids = declared.filter s.serves :=
    hids.trans (Wiring.appendNew_eq_of_nodup (distinct.filter _))
  have first : Gathers s.registry (declared.filter s.serves) [] r.ids := by
    rw [hids]
    refine ⟨distinct.filter _, List.prefix_refl _, by simp, fun before x after split d hd => ?_⟩
    obtain ⟨hx, hserves⟩ := List.mem_filter.mp
      (show x ∈ declared.filter s.serves from split ▸ by simp)
    exact absurd hd (bare x hx hserves d)
  obtain ⟨lists', gathers⟩ := gathers_used lists first hused
  exact ⟨r'.ids, lists', gathers⟩

end Flattening

theorem NodeKind.ofName?_of_mem_alwaysEmitted {name : String}
    (h : name ∈ Flattening.alwaysEmitted) : ofName? name = some .service := by
  have all : ∀ name ∈ Flattening.alwaysEmitted, ofName? name = some .service := by decide
  exact all name h

/-- Whether `fields` is what a flow lists for a registered node: its entry, or nothing for a node
that is never shown. -/
def Session.Writes (s : Session) (id : String) (fields : JsonObject) : Prop :=
  s.HasEntry id fields ∨ ∃ node, s.node? id = some node ∧ node.isStructural = true ∧ fields = []

theorem Session.Sound.writes {s : Session} (sound : s.Sound) {id : String} {fields : JsonObject}
    (h : s.EmitsAs id fields) : s.Writes id fields := by
  obtain ⟨node, hn, hfields⟩ := h
  rcases visible : node.isStructural with _ | _
  · exact .inl (hasEntry_of_emit hn (sound.registry.keyed id node hn) visible hfields)
  · refine .inr ⟨node, hn, visible, ?_⟩
    exact (Except.ok.inj ((emit_of_empty (by simp [visible])).symm.trans hfields)).symm

theorem EditorNode.named_of_service {raw : EditorNode}
    (service : NodeKind.ofName? (Text.lower raw.kind) = some .service) (c : Collaborators) :
    raw.named c = [] := by
  unfold named builtPlain
  rw [service]
  rfl

namespace EditorGraph

/-- The ids of the services that a level declares, in order. -/
def services (graph : EditorGraph) : List String :=
  (graph.resources.filter fun raw =>
    Flattening.alwaysEmitted.contains (Node.ofEditor raw).lowerKind).map EditorNode.id

end EditorGraph

namespace Level

namespace Compiled

variable {room : Nat} {graph : EditorGraph} {s t built connected : Session} {flow : Flow}
  {order : List String} {blocks : List Block} {g : Block.Folding}
  (c : Compiled room graph s t flow built connected order blocks g)
  (distinct : (graph.resources.map EditorNode.id).Nodup)
  (apart : ∀ id ∈ graph.resources.map EditorNode.id, id ∉ graph.nodes.map EditorNode.id)

include c distinct apart

/-- A resource of the level stands in the registry as it was built. -/
theorem exists_resource {raw : EditorNode} (h : raw ∈ graph.resources) :
    ∃ first node, t.node? raw.id = some node ∧ first.bare = node.bare ∧
      Node.BuiltFrom raw first ∧ first.NamesAs raw s.collaborators := by
  have behaves := behaves_nestedCompiler room
  obtain ⟨resources, u, nodes, v, resourced, hnodes, rfl⟩ := buildAll_eq_ok.mp c.building
  have hfrom := resourced.builtFrom behaves
  have hids : resources.map Node.id = graph.resources.map EditorNode.id :=
    Session.ids_of_builtFrom hfrom
  have hids' : nodes.map Node.id = graph.nodes.map EditorNode.id :=
    Session.ids_of_builtFrom ((ensures_buildNodes behaves graph.nodes u).of_ok hnodes).1
  obtain ⟨first, hfirst, from_, names⟩ := exists_of_mem_left
    (List.Forall₂.mp (fun _ _ hfrom hnames => And.intro hfrom hnames) hfrom
      (resourced.namesAs behaves)) h
  have hnone : nodes.reverse.find? (fun node => node.id = raw.id) = none := by
    refine List.find?_eq_none.mpr fun node hnode he => ?_
    have hin : raw.id ∈ nodes.map Node.id :=
      List.mem_map.mpr ⟨node, List.mem_reverse.mp hnode, by simpa using he⟩
    exact apart raw.id (List.mem_map_of_mem h) (hids' ▸ hin)
  have hbuilt :
      ((v.registerAll resources).registerAll nodes).registry.get? raw.id = some first := by
    show ((v.registerAll resources).registerAll nodes).node? raw.id = some first
    rw [Session.node?_registerAll, hnone, Option.none_or, ← from_.id, Session.node?_registerAll,
      Session.find?_reverse_of_nodup (hids ▸ distinct) hfirst]
    rfl
  obtain ⟨node, hnode, hbare⟩ := c.registered.exists_get? hbuilt
  exact ⟨first, node, hnode, hbare.symm, from_, names⟩

theorem serves_eq {raw : EditorNode} (h : raw ∈ graph.resources) :
    t.serves raw.id = Flattening.alwaysEmitted.contains (Node.ofEditor raw).lowerKind := by
  obtain ⟨first, node, hnode, hbare, from_, -⟩ := c.exists_resource distinct apart h
  have hkind : node.lowerKind = (Node.ofEditor raw).lowerKind :=
    (Node.lowerKind_of_bare hbare).symm.trans from_.lowerKind
  rw [Session.serves_of_node? hnode, hkind]

theorem filter_serves :
    (graph.resources.map EditorNode.id).filter t.serves = graph.services := by
  rw [List.filter_map, EditorGraph.services]
  exact congrArg _ (List.filter_congr fun raw hraw => c.serves_eq distinct apart hraw)

/-- A service of the level depends on nothing. -/
theorem not_dependsOn {id : String} (h : id ∈ graph.services) (d : String) :
    ¬ t.registry.DependsOn id d := by
  obtain ⟨raw, hraw, rfl⟩ := List.mem_map.mp h
  obtain ⟨hraw, hkind⟩ := List.mem_filter.mp hraw
  obtain ⟨first, node, hnode, hbare, from_, names⟩ := c.exists_resource distinct apart hraw
  have service : NodeKind.ofName? (Text.lower raw.kind) = some .service :=
    NodeKind.ofName?_of_mem_alwaysEmitted (List.contains_iff_mem.mp hkind)
  have hresources : node.resourceIds = [] := by
    rw [← Node.resourceIds_of_bare hbare]
    refine List.eq_nil_iff_forall_not_mem.mpr fun x hx => ?_
    simpa [EditorNode.named_of_service service] using names x hx
  have hmembers : node.members = [] := by
    have hnone : first.body.branching? = none := by
      rcases from_.body with hfailed | hbody
      · exact NodeBody.branching?_of_isFailed hfailed
      · refine Option.not_isSome_iff_eq_none.mp ?_
        rw [NodeBody.branching?_isSome, hbody, from_.lowerKind, service]
        decide
    have hcases := Node.cases_of_bare hbare
    rw [hnone] at hcases
    simp [Node.members, Option.map_eq_none_iff.mp hcases.symm]
  rw [Registry.dependsOn_of_no_members hnode hmembers, hresources]
  exact List.not_mem_nil

end Compiled

/-- A flow lists each resource once: first the services that the level declares, then all that the
nodes that are left lead to, through what is registered and through the branches of forks. Each
comes after what it depends on, except for what depends on it in turn. -/
theorem resources_complete {room : Nat} {graph : EditorGraph} {s t : Session} {flow : Flow}
    (run : compile (nestedCompiler room) graph s = (.ok flow, t)) (sound : s.Sound)
    (distinct : (graph.resources.map EditorNode.id).Nodup)
    (apart : ∀ id ∈ graph.resources.map EditorNode.id, id ∉ graph.nodes.map EditorNode.id) :
    ∃ built connected order blocks g,
      Compiled room graph s t flow built connected order blocks g ∧
      ∃ ids, List.Forall₂ t.Writes ids flow.resources ∧ ids.Nodup ∧ graph.services <+: ids ∧
        (∀ x, x ∈ ids ↔ x ∈ graph.services ∨
          ∃ id ∈ remaining order g, TransGen t.registry.DependsOn id x) ∧
        DepsFirst t.registry.DependsOn ids := by
  obtain ⟨built, connected, order, blocks, g, c⟩ := compiled_of_compile run
  have final := ((ensures_compile (behaves_nestedCompiler room) graph s).of_ok run).sound sound
  have hfilter := c.filter_serves distinct apart
  obtain ⟨ids, emits, gathers⟩ := Flattening.gathers_of_flow c.flow distinct fun id hid hserves =>
    c.not_dependsOn distinct apart (hfilter ▸ List.mem_filter.mpr ⟨hid, hserves⟩)
  rw [hfilter] at gathers
  exact ⟨built, connected, order, blocks, g, c, ids, emits.imp fun _ _ => final.writes,
    gathers.nodup, gathers.leads, gathers.mem, gathers.first⟩

/-- A node that gets a parameter from a model. -/
def extractor (id model : String) : EditorNode where
  id
  data := [("payload__kind", .string "ParameterExtractor"), ("payload__base_model", .string model)]

/-- A graph with a model in a branch of a fork. -/
def modelInBranch : EditorGraph where
  nodes := [bareNode "f" "ifs", extractor "q" "deep", bareNode "g" "aggregator"]
  edges := [{ source := "f", target := "q", sourceHandle := some "true" },
    { source := "q", target := "g" },
    { source := "f", target := "g", sourceHandle := some "false" }]
  resources := [bareNode "deep" "web"]

/-- A level of which a node uses the fork of a sub-graph. -/
def borrowedFork : EditorGraph where
  nodes := [holding "n" modelInBranch, extractor "p" "f"]
  resources := [bareNode "w" "web"]

theorem resources_complete_borrowedFork :
    ∃ flow t, compile (nestedCompiler 16) borrowedFork {} = (.ok flow, t) ∧
      ∃ built connected order blocks g,
        Compiled 16 borrowedFork {} t flow built connected order blocks g ∧
        ∃ ids, List.Forall₂ t.Writes ids flow.resources ∧ ids.Nodup ∧
          borrowedFork.services <+: ids ∧
          (∀ x, x ∈ ids ↔ x ∈ borrowedFork.services ∨
            ∃ id ∈ remaining order g, TransGen t.registry.DependsOn id x) ∧
          DepsFirst t.registry.DependsOn ids := by
  have ok : (compile (nestedCompiler 16) borrowedFork {}).1.isOk = true := by decide +kernel
  rcases run : compile (nestedCompiler 16) borrowedFork {} with ⟨e | flow, t⟩
  · rw [run] at ok
    cases ok
  · exact ⟨flow, t, rfl, resources_complete run (Session.sound_fresh {} {}) (by decide) (by decide)⟩

/-- What is named in the branches of a fork that is used as a resource is emitted too. -/
theorem borrowed_fork_answers :
    ∃ flow t, compile (nestedCompiler 16) borrowedFork {} = (.ok flow, t) ∧
      flow.resources.any (Flattening.entryOf "deep") = true ∧ "deep" ∉ borrowedFork.services ∧
      ¬ ∃ id ∈ borrowedFork.nodes.map EditorNode.id, ∃ d, t.registry.DependsOn id d ∧
        ReflTransGen t.registry.Names d "deep" := by
  have emitted : ((compile (nestedCompiler 16) borrowedFork {}).1.toOption.any fun flow =>
      flow.resources.any (Flattening.entryOf "deep")) = true := by decide +kernel
  have names : ((compile (nestedCompiler 16) borrowedFork {}).2.node? "n").map
        (fun node => (node.members, node.resourceIds)) = some ([], []) ∧
      ((compile (nestedCompiler 16) borrowedFork {}).2.node? "p").map
        (fun node => (node.members, node.resourceIds)) = some ([], ["f"]) ∧
      ((compile (nestedCompiler 16) borrowedFork {}).2.node? "f").map Node.resourceIds =
        some [] := by
    decide +kernel
  rcases run : compile (nestedCompiler 16) borrowedFork {} with ⟨e | flow, t⟩
  · rw [run] at emitted
    cases emitted
  · rw [run] at emitted names
    refine ⟨flow, t, rfl, emitted, by decide, ?_⟩
    obtain ⟨holder, hholder, hn⟩ := Option.map_eq_some_iff.mp names.1
    obtain ⟨user, huser, hp⟩ := Option.map_eq_some_iff.mp names.2.1
    obtain ⟨fork, hfork, hf⟩ := Option.map_eq_some_iff.mp names.2.2
    obtain ⟨hmembers, hresources⟩ := Prod.mk.inj hn
    obtain ⟨hmembers', hresources'⟩ := Prod.mk.inj hp
    have leaf : ¬ ReflTransGen t.registry.Names "f" "deep" := by
      intro h
      rcases h.cases_head with he | ⟨x, ⟨node, hnode, hx⟩, -⟩
      · exact absurd he (by decide)
      · obtain rfl : fork = node := Option.some.inj (hfork.symm.trans hnode)
        simp [hf] at hx
    rintro ⟨id, hid, d, hd, hchain⟩
    rcases List.mem_pair.mp hid with rfl | rfl
    · have hnamed := (Registry.dependsOn_of_no_members hholder hmembers).mp hd
      simp [hresources] at hnamed
    · have hnamed := (Registry.dependsOn_of_no_members huser hmembers').mp hd
      rw [hresources'] at hnamed
      exact leaf (List.mem_singleton.mp hnamed ▸ hchain)

end Level

end WorkflowCompiler
