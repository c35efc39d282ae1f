import WorkflowCompiler.Proofs.Compile.Registering
import WorkflowCompiler.Proofs.Compile.Resources

/-!
# Graphs with their resources in another order

The order in which a graph declares resources without graphs of their own shows only in the services
at the head of its flow's resources and in the order of the failures.
-/
namespace WorkflowCompiler

open Step

/-- What is emitted for the node under an id. -/
def Session.emitted (s : Session) (id : String) : JsonObject :=
  ((s.node? id).bind fun node => (s.emit node).toOption).getD []

theorem Session.EmitsAs.eq {s : Session} {id : String} {fields : JsonObject}
    (h : s.EmitsAs id fields) : fields = s.emitted id := by
  obtain ⟨node, hn, hfields⟩ := h
  simp [emitted, hn, hfields, Except.toOption]

namespace Flattening

variable {s : Session} {r r' : Resources}

theorem Resources.Lists.emitted (h : r.Lists s) : r.emitted = r.ids.map s.emitted := by
  unfold Resources.Lists at h
  generalize r.ids = ids, r.emitted = entries at h
  induction h with
  | nil => rfl
  | cons first _ ih => rw [List.map_cons, first.eq, ih]

/-- Resources of which the same have been emitted, some of them in another order at the head. -/
structure Resources.Beside (head head' : List JsonObject) (r r' : Resources) : Prop where
  seen : ∀ id, id ∈ r'.seen ↔ id ∈ r.seen
  emitted : ∃ rest, r.emitted = head ++ rest ∧ r'.emitted = head' ++ rest

theorem Resources.Beside.add {head head' : List JsonObject} (h : r.Beside head head' r')
    (entry : String × JsonObject) :
    (addResource r entry).Beside head head' (addResource r' entry) := by
  obtain ⟨rest, hr, hr'⟩ := h.emitted
  have same : r'.seen.contains entry.1 = r.seen.contains entry.1 := by
    rw [Bool.eq_iff_iff, List.contains_iff_mem, List.contains_iff_mem, h.seen]
  unfold addResource
  rw [same]
  split
  · exact h
  · refine ⟨fun id => ?_, rest ++ [entry.2], ?_, ?_⟩
    · rw [List.mem_cons, List.mem_cons, h.seen]
    · rw [hr, List.append_assoc]
    · rw [hr', List.append_assoc]

theorem Resources.Beside.addAll {head head' : List JsonObject} (h : r.Beside head head' r')
    (entries : List (String × JsonObject)) :
    (entries.foldl addResource r).Beside head head' (entries.foldl addResource r') := by
  induction entries generalizing r r' with
  | nil => exact h
  | cons entry entries ih => exact ih (h.add entry)

theorem emitUsed_beside {head head' : List JsonObject} (h : r.Beside head head' r') (id : String) :
    Corresponds (Resources.Beside head head') (emitUsed s r id) (emitUsed s r' id) := by
  unfold emitUsed
  refine (Corresponds.refl (fun _ => rfl) (lookup s id id)).bind fun node node' hnode => ?_
  subst hnode
  refine (Corresponds.refl (fun _ => rfl) (s.resourcesOf node)).bind fun entries entries' he => ?_
  subst he
  exact .ok (h.addAll entries)

/-- The services that are declared are emitted in the order in which they are declared. -/
theorem emitted_declared {declared : List String} (distinct : declared.Nodup)
    (run : declared.foldlM (emitDeclared s) {} = .ok r) :
    r.ids = declared.filter s.serves ∧ r.Lists s := by
  have start : ({} : Resources).Lists s := .nil
  obtain ⟨lists, hids⟩ := Resources.lists_declared start run
  exact ⟨hids.trans (Wiring.appendNew_eq_of_nodup (distinct.filter _)), lists⟩

/-- Where some resources can be emitted as declared, they can in any other order. -/
theorem exists_declared {declared declared' : List String} (perm : declared'.Perm declared)
    (distinct : declared.Nodup) (run : declared.foldlM (emitDeclared s) {} = .ok r) :
    ∃ r', declared'.foldlM (emitDeclared s) {} = .ok r' := by
  obtain ⟨hids, lists⟩ := emitted_declared distinct run
  refine foldlM_succeeds (fun r' id hid => ?_) ({} : Resources)
  have hid := perm.mem_iff.mp hid
  obtain ⟨before, after, first⟩ := exists_ok_of_foldlM run hid
  obtain ⟨resource, hn, -⟩ := bind_eq_ok.mp first
  unfold emitDeclared
  rw [hn]
  by_cases hkind : alwaysEmitted.contains resource.lowerKind = true
  · have hserves := (Session.serves_of_node? (lookup_eq_ok.mp hn)).trans hkind
    obtain ⟨fields, -, node, hnode, hfields⟩ :=
      exists_of_mem_left lists (hids ▸ List.mem_filter.mpr ⟨hid, hserves⟩)
    obtain rfl : resource = node := Option.some.inj ((lookup_eq_ok.mp hn).symm.trans hnode)
    simp only [bind, Except.bind, hfields]
    split
    · exact ⟨_, rfl⟩
    · exact ⟨_, rfl⟩
  · simp only [bind, Except.bind, hkind, Bool.false_and]
    exact ⟨_, rfl⟩

end Flattening

/-- Two flows that are the same but for the order of the services, the entries of which come first
among the resources. -/
structure Flow.Reordered (services services' : List String) (flow flow' : Flow) : Prop where
  nodes : flow'.nodes = flow.nodes
  edges : flow'.edges = flow.edges
  resources : ∃ (entry : String → JsonObject) (rest : List JsonObject),
    (∀ id ∈ services, entry id = [] ∨ Flattening.entryOf id (entry id) = true) ∧
      flow.resources = services.map entry ++ rest ∧ flow'.resources = services'.map entry ++ rest

theorem Session.Writes.entry {s : Session} {id : String} {fields : JsonObject}
    (h : s.Writes id fields) : fields = [] ∨ Flattening.entryOf id fields = true := by
  rcases h with ⟨node, -, -, hentry⟩ | ⟨node, -, -, hfields⟩
  · split at hentry
    · exact .inl hentry
    · exact .inr hentry
  · exact .inl hfields

/-- A level is read off the same in whichever order its resources are declared, except that the
services among them are listed in that order. -/
theorem Flattening.exists_flow {s : Session} (sound : s.Sound) {w : Wiring}
    {order declared declared' : List String} {flow : Flow} (perm : declared'.Perm declared)
    (distinct : declared.Nodup) (run : Flattening.flow s w order declared = .ok flow) :
    ∃ flow', Flattening.flow s w order declared' = .ok flow' ∧
      flow.Reordered (declared.filter s.serves) (declared'.filter s.serves) flow' := by
  unfold Flattening.flow at run ⊢
  obtain ⟨⟨nodes, edges⟩, hparts, run⟩ := bind_eq_ok.mp run
  obtain ⟨first, hfirst, run⟩ := bind_eq_ok.mp run
  obtain ⟨all, hall, run⟩ := bind_eq_ok.mp run
  obtain rfl := pure_eq_ok.mp run
  obtain ⟨first', hfirst'⟩ := exists_declared perm distinct hfirst
  obtain ⟨hids, lists⟩ := emitted_declared distinct hfirst
  obtain ⟨hids', lists'⟩ := emitted_declared (perm.nodup_iff.mpr distinct) hfirst'
  have beside : first.Beside first.emitted first'.emitted first' := by
    refine ⟨fun id => ?_, [], (List.append_nil _).symm, (List.append_nil _).symm⟩
    have mem : ∀ {r : Resources}, id ∈ r.seen ↔ id ∈ r.ids := List.mem_reverse.symm
    rw [mem, mem, hids, hids']
    exact (perm.filter s.serves).mem_iff
  have used : Corresponds _ ((order.filter w.contains).foldlM (emitUsed s) first)
      ((order.filter w.contains).foldlM (emitUsed s) first') :=
    Corresponds.foldlM (fun id _ r r' h => emitUsed_beside h id) beside
  rw [hall] at used
  rcases hall' : (order.filter w.contains).foldlM (emitUsed s) first' with e | all'
  · rw [hall'] at used
    cases used
  rw [hall'] at used
  obtain ⟨rest, hrest, hrest'⟩ := used.of_ok.emitted
  refine ⟨⟨nodes, edges, all'.emitted⟩, ?_, rfl, rfl, s.emitted, rest, fun id hid => ?_, ?_, ?_⟩
  · simp only [bind, Except.bind, hparts, hfirst', hall']
    rfl
  · obtain ⟨fields, -, hfields⟩ := exists_of_mem_left lists (hids ▸ hid)
    exact hfields.eq ▸ (sound.writes hfields).entry
  · rw [← hids, ← lists.emitted]
    exact hrest
  · rw [← hids', ← lists'.emitted]
    exact hrest'

namespace EditorGraph

/-- The kind of what stands under an id when a graph has been built. Nodes take the places of
resources with the same ids. -/
def kindUnder? (graph : EditorGraph) (id : String) : Option String :=
  ((graph.resources ++ graph.nodes).reverse.find? fun raw => raw.id = id).map fun raw =>
    Text.lower raw.kind

/-- The ids of the declared resources under which services stand, in order. -/
def served (graph : EditorGraph) : List String :=
  (graph.resources.map EditorNode.id).filter fun id =>
    (graph.kindUnder? id).any Flattening.alwaysEmitted.contains

theorem kindUnder?_reorder {graph : EditorGraph} {resources : List EditorNode}
    (perm : resources.Perm graph.resources) (distinct : (graph.resources.map EditorNode.id).Nodup)
    (id : String) : ({ graph with resources } : EditorGraph).kindUnder? id = graph.kindUnder? id := by
  unfold kindUnder?
  rw [List.reverse_append, List.reverse_append, List.find?_append, List.find?_append,
    find?_reverse_of_perm perm (List.inj_on_of_nodup_map distinct)]

end EditorGraph

/-- The node that is found under an id is of the kind of what it has been built from. -/
theorem Node.kind_find?_builtFrom {raws : List EditorNode} {nodes : List Node}
    (built : List.Forall₂ Node.BuiltFrom raws nodes) (id : String) :
    (nodes.reverse.find? fun node => node.id = id).map Node.lowerKind =
      (raws.reverse.find? fun raw => raw.id = id).map fun raw => Text.lower raw.kind := by
  have built := List.rel_reverse built
  generalize raws.reverse = raws, nodes.reverse = nodes at built ⊢
  induction built with
  | nil => rfl
  | @cons raw node _ _ first _ ih =>
    rw [List.find?_cons, List.find?_cons, first.id]
    split
    · exact congrArg some first.lowerKind
    · exact ih

namespace Level

open Session

/-- A resource stands in the built level as a service where its id is served. -/
theorem serves_of_buildAll {room : Nat} {graph : EditorGraph} {s t : Session}
    (run : buildAll (nestedCompiler room) graph s = (.ok (), t)) {id : String}
    (declared : id ∈ graph.resources.map EditorNode.id) :
    t.serves id = (graph.kindUnder? id).any Flattening.alwaysEmitted.contains := by
  have behaves := behaves_nestedCompiler room
  obtain ⟨resources, u, nodes, v, resourced, hnodes, rfl⟩ := buildAll_eq_ok.mp run
  have hresources := resourced.builtFrom behaves
  have hfrom := ((ensures_buildNodes behaves graph.nodes u).of_ok hnodes).1
  have kinds : (((v.registerAll resources).registerAll nodes).node? id).map Node.lowerKind =
      graph.kindUnder? id := by
    unfold EditorGraph.kindUnder?
    rw [node?_registerAll, node?_registerAll, List.reverse_append, List.find?_append,
      Option.map_or, Option.map_or, Option.map_or, Node.kind_find?_builtFrom hresources,
      Node.kind_find?_builtFrom hfrom]
    rcases hfind : graph.resources.reverse.find? (fun raw => raw.id = id) with _ | raw
    · obtain ⟨raw, hraw, hid⟩ := List.mem_map.mp declared
      simpa [hid] using List.find?_eq_none.mp hfind raw (List.mem_reverse.mpr hraw)
    · rw [hfind, Option.map_some, Option.some_or]
  unfold Session.serves
  rw [← kinds, Option.any_map]

theorem serves_of_same {s t : Session} (same : s.registry.Same t.registry) (id : String) :
    t.serves id = s.serves id := by
  have held := same id
  unfold Session.serves Session.node?
  generalize s.registry.get? id = x, t.registry.get? id = y at held
  cases x with
  | none =>
    obtain rfl := Option.map_eq_none_iff.mp held
    rfl
  | some node =>
    obtain ⟨other, rfl, hbare⟩ := Option.map_eq_some_iff.mp held
    rw [Option.any_some, Option.any_some, Node.lowerKind_of_bare hbare]

/-- Where a level is built, it is built the same with its resources in another order. -/
theorem buildAll_reorder {room : Nat} {graph : EditorGraph} {resources : List EditorNode}
    (perm : resources.Perm graph.resources) (distinct : (graph.resources.map EditorNode.id).Nodup)
    (plain : ∀ raw ∈ graph.resources, ¬ raw.HasGraph) {s t : Session} (sound : s.Sound)
    (run : buildAll (nestedCompiler room) graph s = (.ok (), t)) :
    ∃ t', buildAll (nestedCompiler room) { graph with resources } s = (.ok (), t') ∧
      t.Shuffled s.collaborators s.options t' := by
  have behaves := behaves_nestedCompiler room
  have couples := couples_shuffled s.collaborators s.options
  have shuffles := shuffles_nestedCompiler s.collaborators s.options room
  obtain ⟨first, u, nodes, v, resourced, hnodes, rfl⟩ := buildAll_eq_ok.mp run
  obtain ⟨first', u', resourced', hperm, hu⟩ := resourced.reorder behaves perm distinct plain sound
  have alike := couples.buildNodes (shuffles_build shuffles) (List.forall₂_refl graph.nodes) hu
  obtain ⟨nodes', v', hnodes', hsame, hv⟩ := alike.exists_ok hnodes
  obtain rfl : nodes = nodes' := List.forall₂_eq_eq_eq ▸ hsame
  have hfirst := resourced.builtFrom behaves
  have hfrom := ((ensures_buildNodes behaves graph.nodes u).of_ok hnodes).1
  refine ⟨_, buildAll_eq_ok.mpr ⟨first', u', nodes, v', resourced', hnodes', rfl⟩, ?_⟩
  have registered := hv.registerAll_perm hperm (ids_of_builtFrom hfirst ▸ distinct)
    (fresh_of_builtFrom hfirst)
  exact couples.registerAll (fresh_of_builtFrom hfrom) (List.forall₂_refl nodes) registered

/-- A level compiles the same in whichever order it declares its resources, except that the services
among them are listed in that order. -/
theorem compile_reorder {room : Nat} {graph : EditorGraph} {resources : List EditorNode}
    (perm : resources.Perm graph.resources) (distinct : (graph.resources.map EditorNode.id).Nodup)
    (plain : ∀ raw ∈ graph.resources, ¬ raw.HasGraph) {s t : Session} (sound : s.Sound) {flow : Flow}
    (run : compile (nestedCompiler room) graph s = (.ok flow, t)) :
    ∃ flow' t', compile (nestedCompiler room) { graph with resources } s = (.ok flow', t') ∧
      t'.failures.Perm t.failures ∧
      flow.Reordered graph.served ({ graph with resources } : EditorGraph).served flow' := by
  have behaves := behaves_nestedCompiler room
  let graph' : EditorGraph := { graph with resources }
  obtain ⟨built, w, order, hbuild, harrange, hflow⟩ := compile_eq_ok.mp run
  -- both levels are arranged alike
  obtain ⟨built', hbuild', alike⟩ := buildAll_reorder perm distinct plain sound hbuild
  have holds := ((ensures_buildAll behaves graph s).of_ok hbuild).2.1
  have holds' := ((ensures_buildAll behaves graph' s).of_ok hbuild').2.1
  obtain ⟨p, t', harrange', rfl, ht⟩ := (shuffles_arrange holds holds' alike).exists_ok harrange
  -- they are read off alike but for what is declared
  obtain ⟨flow', hflow', reordered⟩ := Flattening.exists_flow ht.sound (perm.map EditorNode.id)
    distinct hflow
  have same := ((ensures_arrange holds).of_ok harrange).2
  have serves : ∀ id ∈ graph.resources.map EditorNode.id, t.serves id =
      (graph.kindUnder? id).any Flattening.alwaysEmitted.contains :=
    fun id hid => (serves_of_same same id).trans (serves_of_buildAll hbuild hid)
  have served : (graph.resources.map EditorNode.id).filter t.serves = graph.served :=
    List.filter_congr serves
  have served' : (resources.map EditorNode.id).filter t.serves = graph'.served := by
    refine List.filter_congr fun id hid => ?_
    rw [serves id ((perm.map EditorNode.id).mem_iff.mp hid),
      EditorGraph.kindUnder?_reorder perm distinct]
  rw [served, served'] at reordered
  refine ⟨flow', t', ?_, ht.failures, reordered⟩
  rw [ht.flow_eq] at hflow'
  exact compile_eq_ok.mpr ⟨built', w, order, hbuild', harrange', hflow'⟩

end Level

/-- Two reports of the same but for the order of failures and of services. -/
structure Report.Reordered (services services' : List String) (report report' : Report) : Prop where
  flow : report.flow.Reordered services services' report'.flow
  failures : report'.failures.Perm report.failures

/-- Two outcomes of which both fail, for whatever reasons, or both succeed with related results. -/
inductive Concurs {ε α β : Type} (R : α → β → Prop) : Except ε α → Except ε β → Prop
  | ok {a : α} {b : β} (related : R a b) : Concurs R (.ok a) (.ok b)
  | error (e e' : ε) : Concurs R (.error e) (.error e')

namespace EditorGraph

theorem exists_compile_reorder {graph : EditorGraph} {resources : List EditorNode}
    (perm : resources.Perm graph.resources) (distinct : (graph.resources.map EditorNode.id).Nodup)
    (plain : ∀ raw ∈ graph.resources, ¬ raw.HasGraph) {c : Collaborators} {o : Options}
    {report : Report} (run : graph.compile c o = .ok report) :
    ∃ report', ({ graph with resources } : EditorGraph).compile c o = .ok report' ∧
      report.Reordered graph.served ({ graph with resources } : EditorGraph).served report' := by
  let s : Session := { collaborators := c, options := o }
  unfold compile Session.compile at run ⊢
  rcases hrun : Level.compile (Level.nestedCompiler s.room) graph s with ⟨e | flow, t⟩
  · simp only [s] at hrun
    rw [hrun] at run
    cases run
  · obtain ⟨flow', t', hrun', failures, reordered⟩ :=
      Level.compile_reorder perm distinct plain (Session.sound_fresh c o) hrun
    simp only [s] at hrun hrun'
    rw [hrun] at run
    obtain rfl := Except.ok.inj run
    rw [hrun']
    exact ⟨_, rfl, reordered, failures⟩

/-- The order in which a graph declares resources without graphs of their own shows only in the order
of the services at the head of the flow's resources, and in that of the failures. -/
theorem compile_reordered (graph : EditorGraph) {resources : List EditorNode}
    (perm : resources.Perm graph.resources) (distinct : (graph.resources.map EditorNode.id).Nodup)
    (plain : ∀ raw ∈ graph.resources, ¬ raw.HasGraph) (c : Collaborators) (o : Options) :
    Concurs (Report.Reordered graph.served ({ graph with resources } : EditorGraph).served)
      (graph.compile c o) (({ graph with resources } : EditorGraph).compile c o) := by
  let graph' : EditorGraph := { graph with resources }
  show Concurs _ (graph.compile c o) (graph'.compile c o)
  rcases hrun : graph.compile c o with e | report
  · rcases hrun' : graph'.compile c o with e' | report'
    · exact .error e e'
    · have distinct' : (graph'.resources.map EditorNode.id).Nodup :=
        (perm.map EditorNode.id).nodup_iff.mpr distinct
      have plain' : ∀ raw ∈ graph'.resources, ¬ raw.HasGraph :=
        fun raw hraw => plain raw (perm.mem_iff.mp hraw)
      obtain ⟨report, hback, -⟩ := exists_compile_reorder perm.symm distinct' plain' hrun'
      cases hrun.symm.trans hback
  · obtain ⟨report', hrun', reordered⟩ := exists_compile_reorder perm distinct plain hrun
    exact hrun' ▸ .ok reordered

/-- A graph with two services, two resources that name each other and two that name what is missing,
around a graph in a node. -/
def mixedResources : EditorGraph where
  nodes := [Level.holding "n" Level.modelInBranch, Level.extractor "p" "a"]
  resources := [Level.bareNode "w" "web", Level.extractor "a" "b", Level.extractor "x" "gone",
    Level.bareNode "v" "server", Level.extractor "b" "a", Level.extractor "y" "lost"]

theorem compile_reordered_mixedResources :
    let reversed : EditorGraph :=
      { mixedResources with resources := mixedResources.resources.reverse }
    mixedResources.served = ["w", "v"] ∧ reversed.served = ["v", "w"] ∧
      (mixedResources.compile {} {}).toOption.map
        (fun report => report.failures.map NodeFailure.nodeId) = some ["x", "y"] ∧
      Concurs (Report.Reordered mixedResources.served reversed.served)
        (mixedResources.compile {} {}) (reversed.compile {} {}) := by
  intro reversed
  refine ⟨by decide +kernel, by decide +kernel, by decide +kernel, ?_⟩
  exact mixedResources.compile_reordered (List.reverse_perm _) (by decide +kernel)
    (by decide +kernel) {} {}

end EditorGraph

end WorkflowCompiler
