import WorkflowCompiler.Proofs.Compile.Framing

/-!
# Scopes

A graph that uses only resources which it declares, or whose ids are in scope around it, is compiled
the same in all sessions that hold the same under the ids in scope. What else is registered there
makes no difference, as the graph registers what it declares before anything looks it up.
-/
namespace WorkflowCompiler

open Step

/-- Whether a graph and the graphs inside, of which at most that many nest, use only resources that
they declare or that are in scope. While a resource with a graph of its own is built, only the
resources before it are in scope. -/
def EditorGraph.Scoped (c : Collaborators) (o : Options) : Nat → Set String → EditorGraph → Prop
  | 0, _, _ => True
  | room + 1, scope, graph =>
      (∀ raw ∈ graph.nodes ++ graph.resources, ∀ x ∈ raw.named c,
        x ∈ scope ∨ x ∈ graph.resources.map EditorNode.id) ∧
      (∀ raw ∈ graph.nodes, ∀ inner, raw.Embeds c o inner →
        Scoped c o room {x | x ∈ scope ∨ x ∈ graph.resources.map EditorNode.id} inner) ∧
      ∀ before raw after, graph.resources = before ++ raw :: after → raw.HasGraph →
        (∀ r ∈ before, ∀ x ∈ r.named c, x ∈ scope ∨ x ∈ before.map EditorNode.id) ∧
          ∀ inner, raw.Embeds c o inner →
            Scoped c o room {x | x ∈ scope ∨ x ∈ before.map EditorNode.id} inner

theorem EditorGraph.scoped_of_plain {graph : EditorGraph} {c : Collaborators} {o : Options}
    {scope : Set String} (plain : ∀ raw ∈ graph.nodes ++ graph.resources, ¬ raw.HasGraph)
    (names : ∀ raw ∈ graph.nodes ++ graph.resources, ∀ x ∈ raw.named c,
      x ∈ scope ∨ x ∈ graph.resources.map EditorNode.id) (room : Nat) :
    graph.Scoped c o room scope := by
  cases room with
  | zero => trivial
  | succ room =>
    refine ⟨names, fun raw hraw inner h => ?_, fun before raw after split h => ?_⟩
    · exact absurd h.1 (plain raw (List.mem_append_left _ hraw))
    · exact absurd h (plain raw (by simp [split]))

/-- Sound sessions of the same surroundings that hold the same under `ids`. What is held there has
its members among these ids and its resources in `reach`. -/
structure Session.Linked (c : Collaborators) (o : Options) (ids reach : Set String)
    (s s' : Session) : Prop where
  collaborators : s.collaborators = c
  collaborators' : s'.collaborators = c
  options : s.options = o
  options' : s'.options = o
  nesting : s'.nesting = s.nesting
  sound : s.Sound
  sound' : s'.Sound
  same : ∀ id ∈ ids, s'.node? id = s.node? id
  members : ∀ id ∈ ids, ∀ node, s.node? id = some node → ∀ m ∈ node.members, m ∈ ids
  resources : ∀ id ∈ ids, ∀ node, s.node? id = some node → ∀ x ∈ node.resourceIds, x ∈ reach

/-- Sessions that hold the same under these ids and whatever these lead to. -/
def Session.LinkedFrom (c : Collaborators) (o : Options) (ids : Set String) (s s' : Session) :
    Prop :=
  ∃ all, ids ⊆ all ∧ s.Linked c o all all s'

namespace Session

variable {c : Collaborators} {o : Options} {ids reach : Set String} {s s' t t' : Session}

namespace Linked

theorem agree (h : s.Linked c o ids ids s') : s.Agree [] ids s' where
  collaborators := h.collaborators'.trans h.collaborators.symm
  options := h.options'.trans h.options.symm
  nesting := h.nesting
  registry := by
    refine ⟨fun id hid => ?_, h.members, h.resources⟩
    rw [show s'.registry.get? id = s.registry.get? id from h.same id hid]
    cases s.registry.get? id with
    | none => exact .none
    | some node => exact .some (.same node)

theorem of_agree (h : s.Linked c o ids ids s') (agree : t.Agree [] ids t') (settles : s.Settles t)
    (settles' : s'.Settles t') : t.Linked c o ids ids t' where
  collaborators := settles.collaborators.trans h.collaborators
  collaborators' := settles'.collaborators.trans h.collaborators'
  options := settles.options.trans h.options
  options' := settles'.options.trans h.options'
  nesting := agree.nesting
  sound := settles.sound h.sound
  sound' := settles'.sound h.sound'
  same := by
    intro id hid
    have held := agree.registry.alike id hid
    unfold node?
    generalize t.registry.get? id = x, t'.registry.get? id = y at held
    cases held with
    | none => rfl
    | some held => rw [held.eq_of_nil]
  members := agree.registry.members
  resources := agree.registry.resources

theorem contains (h : s.Linked c o ids reach s') {id : String} (hid : id ∈ ids) :
    s'.registry.contains id = s.registry.contains id :=
  congrArg Option.isSome (h.same id hid)

theorem reach_mono (h : s.Linked c o ids reach s') {reach' : Set String} (sub : reach ⊆ reach') :
    s.Linked c o ids reach' s' :=
  { h with resources := fun id hid node hn x hx => sub (h.resources id hid node hn x hx) }

theorem register (h : s.Linked c o ids reach s') {node : Node} (made : node.WellMade)
    (members : node.members = []) (names : ∀ x ∈ node.resourceIds, x ∈ reach) :
    (s.register node).Linked c o (insert node.id ids) reach (s'.register node) where
  collaborators := h.collaborators
  collaborators' := h.collaborators'
  options := h.options
  options' := h.options'
  nesting := h.nesting
  sound := (s.grows_register made members).sound h.sound
  sound' := (s'.grows_register made members).sound h.sound'
  same := by
    intro id hid
    rw [node?_register, node?_register]
    split
    · rfl
    · next hne => exact h.same id (hid.resolve_left hne)
  members := by
    intro id hid held hn m hm
    obtain ⟨-, rfl⟩ | ⟨hne, hn⟩ := node?_register_cases hn
    · simp [members] at hm
    · exact .inr (h.members id (hid.resolve_left hne) held hn m hm)
  resources := by
    intro id hid held hn x hx
    obtain ⟨-, rfl⟩ | ⟨hne, hn⟩ := node?_register_cases hn
    · exact names x hx
    · exact h.resources id (hid.resolve_left hne) held hn x hx

theorem recordFailure (h : s.Linked c o ids reach s') (id : String) {e : CompileError}
    (he : e.isRecoverable = true) :
    (s.recordFailure id e).Linked c o ids reach (s'.recordFailure id e) :=
  { h with
    sound := (s.settles_recordFailure id he).sound h.sound
    sound' := (s'.settles_recordFailure id he).sound h.sound' }

theorem within (h : s.Linked c o ids reach s') (app : String) :
    (s.within app).Linked c o ids reach (s'.within app) :=
  { h with
    nesting := congrArg (· ++ [app]) h.nesting
    sound := ⟨h.sound.registry, h.sound.failures⟩
    sound' := ⟨h.sound'.registry, h.sound'.failures⟩ }

theorem leave (h : s.Linked c o ids reach s') : s.leave.Linked c o ids reach s'.leave :=
  { h with
    nesting := congrArg List.dropLast h.nesting
    sound := ⟨h.sound.registry, h.sound.failures⟩
    sound' := ⟨h.sound'.registry, h.sound'.failures⟩ }

theorem linkedFrom (h : s.Linked c o ids ids s') : s.LinkedFrom c o ids s' := ⟨ids, subset_rfl, h⟩

end Linked

namespace LinkedFrom

variable (h : s.LinkedFrom c o ids s')

include h

theorem mono {ids' : Set String} (sub : ids' ⊆ ids) : s.LinkedFrom c o ids' s' := by
  obtain ⟨all, hsub, linked⟩ := h
  exact ⟨all, sub.trans hsub, linked⟩

theorem recordFailure (id : String) {e : CompileError} (he : e.isRecoverable = true) :
    (s.recordFailure id e).LinkedFrom c o ids (s'.recordFailure id e) := by
  obtain ⟨all, sub, linked⟩ := h
  exact ⟨all, sub, linked.recordFailure id he⟩

theorem leave : s.leave.LinkedFrom c o ids s'.leave := by
  obtain ⟨all, sub, linked⟩ := h
  exact ⟨all, sub, linked.leave⟩

/-- What is registered in both leads to ids under which the same is held. -/
theorem register {node : Node} (made : node.WellMade) (members : node.members = [])
    (names : ∀ x ∈ node.resourceIds, x ∈ ids) :
    (s.register node).LinkedFrom c o (insert node.id ids) (s'.register node) := by
  obtain ⟨all, sub, linked⟩ := h
  refine ⟨insert node.id all, Set.insert_subset_insert sub, ?_⟩
  exact (linked.reach_mono (Set.subset_insert _ _)).register made members fun x hx =>
    .inr (sub (names x hx))

end LinkedFrom

end Session

/-- In the same surroundings a node enters the same graph. -/
theorem Node.entrance_corresponds {c : Collaborators} {o : Options} {ids reach : Set String}
    {s s' : Session} (linked : s.Linked c o ids reach s') (raw : EditorNode) :
    Corresponds (fun p q => p.1 = q.1 ∧ p.2.1 = q.2.1 ∧
        Node.nestedGraph { collaborators := c, options := o } (ofEditor raw) = .ok p.2.1 ∧
        p.2.2 = s.within (ofEditor raw).appId ∧ q.2.2 = s'.within (ofEditor raw).appId)
      ((ofEditor raw).entrance s) ((ofEditor raw).entrance s') := by
  have graph : ∀ {t : Session}, t.collaborators = c → t.options = o → nestedGraph t (ofEditor raw) =
      nestedGraph { collaborators := c, options := o } (ofEditor raw) :=
    fun hc ho => nestedGraph_congr hc ho _
  unfold entrance
  rw [graph linked.collaborators linked.options, graph linked.collaborators' linked.options']
  rcases (ofEditor raw).flavor with e | flavor
  · exact .error e
  rcases nestedGraph { collaborators := c, options := o } (ofEditor raw) with e | inner
  · exact .error e
  have options := linked.options'.trans linked.options.symm
  exact (Session.enter_corresponds linked.nesting options _).bind fun t t' h =>
    .ok ⟨rfl, rfl, rfl, h.1, h.2⟩

namespace Level

open Session

variable {c : Collaborators} {o : Options}

/-- A step that does the same in both sessions and keeps what they hold the same. Where it fails for
the whole graph, nothing more is asked. -/
abbrev Steady {α : Type} (c : Collaborators) (o : Options) (ids : Set String) (m : Build α)
    (s s' : Session) : Prop :=
  Lockstep m m s s' Eq (LinkedFrom c o ids) fun e t t' =>
    e.isRecoverable = true → t.LinkedFrom c o ids t'

/-- Whether graphs inside which that many nest are compiled the same in linked sessions. -/
def Steadies (c : Collaborators) (o : Options) (room : Nat) : Prop :=
  ∀ {scope ids : Set String} {graph : EditorGraph} {s s' : Session}, graph.Scoped c o room scope →
    scope ⊆ ids → s.Linked c o ids ids s' → Steady c o ids (nestedCompiler room graph) s s'

section Building

variable {room : Nat} (steady : Steadies c o room) {scope ids : Set String} {s s' : Session}

include steady

/-- A node is built the same when the graph that it holds is compiled the same. -/
theorem steady_build {raw : EditorNode}
    (inside : ∀ inner, raw.Embeds c o inner → inner.Scoped c o room scope)
    (sub : scope ⊆ ids) (linked : s.Linked c o ids ids s') :
    Steady c o ids (Node.build (nestedCompiler room) raw) s s' := by
  by_cases hsub : raw.HasGraph
  · rw [Node.build_subgraph _ hsub]
    refine Node.lockstep_buildNested ((Node.entrance_corresponds linked raw).mono ?_)
      (fun _ => rfl) LinkedFrom.leave linked.linkedFrom
    rintro ⟨flavor, inner, t⟩ ⟨flavor', inner', t'⟩ ⟨hflavor, rfl, hgraph, rfl, rfl⟩
    exact ⟨hflavor, steady (inside inner ⟨hsub, hgraph⟩) sub (linked.within _)⟩
  · unfold Steady Lockstep
    rw [Node.run_build_plain _ hsub, Node.run_build_plain _ hsub, linked.collaborators,
      linked.collaborators']
    rcases raw.builtPlain c with e | node
    · exact .error e fun _ => linked.linkedFrom
    · exact .ok rfl linked.linkedFrom

/-- A node that names what is in scope is built the same. -/
theorem lockstep_buildNode {raw : EditorNode}
    (inside : ∀ inner, raw.Embeds c o inner → inner.Scoped c o room scope)
    (sub : scope ⊆ ids) (names : ∀ x ∈ raw.named c, x ∈ ids) (linked : s.Linked c o ids ids s') :
    Lockstep (buildNode (nestedCompiler room) raw) (buildNode (nestedCompiler room) raw) s s' Eq
      (LinkedFrom c o ids) fun e _ _ => e.isRecoverable = false := by
  refine lockstep_orPlaceholder ?_ (fun _ => rfl) fun he h => h.recordFailure raw.id he
  refine (steady_build steady inside sub linked).bind fun node node' t t' run _ hnode ht => ?_
  subst hnode
  have named := (Node.namesAs_build _ raw s).of_ok run
  rw [linked.collaborators] at named
  have same : Corresponds Eq (t.checkResources node) (t'.checkResources node) := by
    obtain ⟨all, hall, linked⟩ := ht
    rw [checkResources_congr fun x hx => linked.contains (hall (names x (named x hx)))]
    exact .refl (fun _ => rfl) _
  unfold checked
  exact (lockstep_ofSession same ht fun _ _ => ht).bind fun _ _ u u' _ _ _ hu =>
    lockstep_pure rfl hu

/-- A resource is registered as soon as it is built. What it names may be registered after it,
unless the next resource has a graph of its own. -/
theorem lockstep_buildResource (raw : EditorNode) {reach : Set String}
    (inside : ∀ inner, raw.Embeds c o inner → inner.Scoped c o room scope) (sub : scope ⊆ ids)
    (closed : raw.HasGraph → reach ⊆ ids) (linked : s.Linked c o ids reach s') :
    Lockstep (buildResource (nestedCompiler room) raw) (buildResource (nestedCompiler room) raw) s s'
      Eq (fun t t' => ∃ all, insert raw.id ids ⊆ all ∧
        t.Linked c o all {x | x ∈ all ∨ x ∈ reach ∨ x ∈ raw.named c} t')
      fun e _ _ => e.isRecoverable = false := by
  let Q (t t' : Session) : Prop := ∃ all, ids ⊆ all ∧ t.Linked c o all {x | x ∈ all ∨ x ∈ reach} t'
  have built : Lockstep (orPlaceholder raw (Node.build (nestedCompiler room) raw))
      (orPlaceholder raw (Node.build (nestedCompiler room) raw)) s s' Eq Q
      fun e _ _ => e.isRecoverable = false := by
    refine lockstep_orPlaceholder ?_ (fun _ => rfl) fun he h => ?_
    · by_cases hsub : raw.HasGraph
      · have first := steady_build steady inside sub (linked.reach_mono (closed hsub))
        refine lockstep_of_run first (fun node node' t t' _ _ h ht => ⟨h, ?_⟩)
          fun e t t' _ _ h he => ?_
        · obtain ⟨all, hall, linked⟩ := ht
          exact ⟨all, hall, linked.reach_mono fun x hx => .inl hx⟩
        · obtain ⟨all, hall, linked⟩ := h he
          exact ⟨all, hall, linked.reach_mono fun x hx => .inl hx⟩
      · unfold Lockstep
        rw [Node.run_build_plain _ hsub, Node.run_build_plain _ hsub, linked.collaborators,
          linked.collaborators']
        have same : Q s s' := ⟨ids, subset_rfl, linked.reach_mono fun x hx => .inr hx⟩
        rcases raw.builtPlain c with e | node
        · exact .error e fun _ => same
        · exact .ok rfl same
    · obtain ⟨all, hall, linked⟩ := h
      exact ⟨all, hall, linked.recordFailure raw.id he⟩
  refine built.bind fun node node' t t' run _ hnode ht => ?_
  subst hnode
  have named := (namesAs_orPlaceholder (Node.namesAs_build (nestedCompiler room) raw s)).of_ok run
  rw [linked.collaborators] at named
  obtain ⟨hfrom, -⟩ :=
    (ensures_orPlaceholder_build (behaves_nestedCompiler room) raw s).of_ok run
  obtain ⟨all, hall, linked⟩ := ht
  refine Matches.ok rfl ⟨insert raw.id all, Set.insert_subset_insert hall, ?_⟩
  rw [← hfrom.id]
  refine (linked.reach_mono fun x hx => ?_).register hfrom.wellMade hfrom.members fun x hx =>
    .inr (.inr (named x hx))
  exact hx.elim (fun hx => .inl (.inr hx)) fun hx => .inr (.inl hx)

/-- Building resources one after the other, all that are built are known, and so is what they name
unless that is still to come. -/
theorem lockstep_buildResources_ahead {resources : List EditorNode}
    (inside : ∀ before raw after, resources = before ++ raw :: after → raw.HasGraph →
      (∀ r ∈ before, ∀ x ∈ r.named c, x ∈ scope ∨ x ∈ before.map EditorNode.id) ∧
        ∀ inner, raw.Embeds c o inner →
          inner.Scoped c o room {x | x ∈ scope ∨ x ∈ before.map EditorNode.id})
    (sub : scope ⊆ ids) (linked : s.Linked c o ids ids s') :
    Lockstep (resources.mapM (buildResource (nestedCompiler room)))
      (resources.mapM (buildResource (nestedCompiler room))) s s' (List.Forall₂ Eq)
      (fun t t' => ∃ all, ids ⊆ all ∧ (∀ r ∈ resources, r.id ∈ all) ∧
        t.Linked c o all {x | x ∈ all ∨ ∃ r ∈ resources, x ∈ r.named c} t')
      fun e _ _ => e.isRecoverable = false := by
  let Q (done : List EditorNode) (t t' : Session) : Prop := ∃ all, ids ⊆ all ∧
    (∀ r ∈ done, r.id ∈ all) ∧ t.Linked c o all {x | x ∈ all ∨ ∃ r ∈ done, x ∈ r.named c} t'
  refine lockstep_mapM Q ?_ ⟨ids, subset_rfl, by simp, linked.reach_mono fun x hx => .inl hx⟩
  intro before raw after t t' split ⟨all, hall, hdone, linked⟩
  have mem : ∀ {x}, x ∈ scope ∨ x ∈ before.map EditorNode.id → x ∈ all := by
    rintro x (hx | hx)
    · exact hall (sub hx)
    · obtain ⟨r, hr, rfl⟩ := List.mem_map.mp hx
      exact hdone r hr
  have step := lockstep_buildResource steady raw
    (fun inner h => (inside before raw after split h.1).2 inner h) (fun x hx => mem hx) ?_ linked
  · refine lockstep_of_run step (fun _ _ u u' _ _ h hu => ⟨h, ?_⟩) fun _ _ _ _ _ he => he
    obtain ⟨all', hall', linked⟩ := hu
    refine ⟨all', hall.trans ((Set.subset_insert _ _).trans hall'), fun r hr => ?_,
      linked.reach_mono fun x hx => ?_⟩
    · rcases List.mem_append.mp hr with hr | hr
      · exact hall' (.inr (hdone r hr))
      · exact hall' (.inl (List.mem_singleton.mp hr ▸ rfl))
    · rcases hx with hx | (hx | ⟨r, hr, hx⟩) | hx
      · exact .inl hx
      · exact .inl (hall' (.inr hx))
      · exact .inr ⟨r, List.mem_append_left _ hr, hx⟩
      · exact .inr ⟨raw, by simp, hx⟩
  · rintro hgraph x (hx | ⟨r, hr, hx⟩)
    · exact hx
    · exact mem ((inside before raw after split hgraph).1 r hr x hx)

/-- Once all resources are registered, what they name is among the ids that are known. -/
theorem lockstep_buildResources {resources : List EditorNode}
    (inside : ∀ before raw after, resources = before ++ raw :: after → raw.HasGraph →
      (∀ r ∈ before, ∀ x ∈ r.named c, x ∈ scope ∨ x ∈ before.map EditorNode.id) ∧
        ∀ inner, raw.Embeds c o inner →
          inner.Scoped c o room {x | x ∈ scope ∨ x ∈ before.map EditorNode.id})
    (names : ∀ raw ∈ resources, ∀ x ∈ raw.named c, x ∈ scope ∨ x ∈ resources.map EditorNode.id)
    (sub : scope ⊆ ids) (linked : s.Linked c o ids ids s') :
    Lockstep (resources.mapM (buildResource (nestedCompiler room)))
      (resources.mapM (buildResource (nestedCompiler room))) s s' (List.Forall₂ Eq)
      (LinkedFrom c o {x | x ∈ ids ∨ x ∈ resources.map EditorNode.id})
      fun e _ _ => e.isRecoverable = false := by
  have ahead := lockstep_buildResources_ahead steady inside sub linked
  refine lockstep_of_run ahead (fun _ _ t t' _ _ h ht => ⟨h, ?_⟩) fun _ _ _ _ _ he => he
  obtain ⟨all, hall, hdone, linked⟩ := ht
  have mem : ∀ {x}, x ∈ resources.map EditorNode.id → x ∈ all := by
    intro x hx
    obtain ⟨r, hr, rfl⟩ := List.mem_map.mp hx
    exact hdone r hr
  refine ⟨all, fun x hx => hx.elim (fun hx => hall hx) mem, linked.reach_mono fun x hx => ?_⟩
  rcases hx with hx | ⟨r, hr, hx⟩
  · exact hx
  · exact (names r hr x hx).elim (fun hx => hall (sub hx)) mem

omit steady in
theorem lockstep_checkResource {raw : EditorNode} {resource : Node}
    (named : resource.NamesAs raw c) (names : ∀ x ∈ raw.named c, x ∈ ids)
    (linked : s.LinkedFrom c o ids s') :
    Lockstep (checkResource raw resource) (checkResource raw resource) s s' Eq (LinkedFrom c o ids)
      fun e _ _ => e.isRecoverable = false := by
  have same : s'.checkResources resource = s.checkResources resource := by
    obtain ⟨all, hall, linked⟩ := linked
    exact checkResources_congr fun x hx => linked.contains (hall (names x (named x hx)))
  unfold Lockstep
  rw [run_checkResource, run_checkResource, same]
  rcases hcheck : s.checkResources resource with e | _
  · have he := Session.checkResources_error hcheck
    have hstand := Node.builtFrom_placeholder raw e.message
    refine Matches.ok rfl (LinkedFrom.mono ?_ (Set.subset_insert raw.id ids))
    exact (linked.recordFailure raw.id he).register hstand.wellMade hstand.members fun x hx => by
      cases hx
  · exact Matches.ok rfl linked

omit steady in
theorem lockstep_checkResources {resources : List EditorNode} {built : List Node}
    (named : List.Forall₂ (fun raw node => node.NamesAs raw c) resources built)
    (names : ∀ raw ∈ resources, ∀ x ∈ raw.named c, x ∈ ids) (linked : s.LinkedFrom c o ids s') :
    Lockstep ((resources.zip built).mapM fun p => checkResource p.1 p.2)
      ((resources.zip built).mapM fun p => checkResource p.1 p.2) s s' (List.Forall₂ Eq)
      (LinkedFrom c o ids) fun e _ _ => e.isRecoverable = false := by
  refine lockstep_mapM (fun _ => LinkedFrom c o ids) ?_ linked
  intro before p after t t' split ht
  have hp : p ∈ resources.zip built := by simp [split]
  exact lockstep_checkResource (List.forall₂_zip named hp) (names p.1 (List.of_mem_zip hp).1) ht

/-- The nodes of a level are built the same, with all its resources in scope. -/
theorem lockstep_buildNodes {nodes : List EditorNode}
    (inside : ∀ raw ∈ nodes, ∀ inner, raw.Embeds c o inner → inner.Scoped c o room scope)
    (sub : scope ⊆ ids) (names : ∀ raw ∈ nodes, ∀ x ∈ raw.named c, x ∈ ids)
    (linked : s.LinkedFrom c o ids s') :
    Lockstep (nodes.mapM (buildNode (nestedCompiler room)))
      (nodes.mapM (buildNode (nestedCompiler room))) s s' (List.Forall₂ Eq) (LinkedFrom c o ids)
      fun e _ _ => e.isRecoverable = false := by
  refine lockstep_mapM (fun _ => LinkedFrom c o ids) ?_ linked
  intro before raw after t t' split ht
  have hraw : raw ∈ nodes := by simp [split]
  obtain ⟨all, hall, linked⟩ := ht
  have step := lockstep_buildNode steady (inside raw hraw) (sub.trans hall)
    (fun x hx => hall (names raw hraw x hx)) linked
  exact lockstep_of_run step (fun _ _ _ _ _ _ h hu => ⟨h, hu.mono hall⟩) fun _ _ _ _ _ he => he

omit steady in
/-- The same nodes are registered in both sessions. -/
theorem linkedFrom_registerAll {nodes : List Node}
    (fresh : ∀ node ∈ nodes, node.WellMade ∧ node.members = [])
    (names : ∀ node ∈ nodes, ∀ x ∈ node.resourceIds, x ∈ ids) (linked : s.LinkedFrom c o ids s') :
    (s.registerAll nodes).LinkedFrom c o {x | x ∈ ids ∨ x ∈ nodes.map Node.id}
      (s'.registerAll nodes) := by
  induction nodes generalizing ids s s' with
  | nil => exact linked.mono fun x hx => hx.resolve_right (by simp)
  | cons node nodes ih =>
    obtain ⟨made, members⟩ := fresh node List.mem_cons_self
    have first := linked.register made members (names node List.mem_cons_self)
    have rest := ih (fun n hn => fresh n (List.mem_cons_of_mem _ hn))
      (fun n hn x hx => .inr (names n (List.mem_cons_of_mem _ hn) x hx)) first
    refine rest.mono fun x hx => ?_
    rcases hx with hx | hx
    · exact .inl (.inr hx)
    · rcases List.mem_cons.mp hx with rfl | hx
      · exact .inl (.inl rfl)
      · exact .inr hx

/-- A level is built the same, and what it declares is known in the end. -/
theorem lockstep_buildAll {graph : EditorGraph} (uses : graph.Scoped c o (room + 1) scope)
    (sub : scope ⊆ ids) (linked : s.Linked c o ids ids s') :
    Lockstep (buildAll (nestedCompiler room) graph) (buildAll (nestedCompiler room) graph) s s' Eq
      (LinkedFrom c o {x | x ∈ ids ∨ x ∈ graph.declared}) fun e _ _ => e.isRecoverable = false := by
  obtain ⟨names, inside, inside'⟩ := uses
  have behaves := behaves_nestedCompiler room
  let known : Set String := {x | x ∈ ids ∨ x ∈ graph.resources.map EditorNode.id}
  have known_of_names : ∀ raw ∈ graph.nodes ++ graph.resources, ∀ x ∈ raw.named c, x ∈ known :=
    fun raw hraw x hx => (names raw hraw x hx).imp_left fun hx => sub hx
  unfold buildAll
  -- the resources
  refine (lockstep_buildResources steady inside'
    (fun raw hraw => names raw (List.mem_append_right _ hraw)) sub linked).bind
    fun built built' t t' hbuilt _ h ht => ?_
  obtain rfl : built = built' := List.forall₂_eq_eq_eq ▸ h
  have hnamed := (namesAs_buildResources behaves graph.resources s).of_ok hbuilt
  rw [linked.collaborators] at hnamed
  refine (lockstep_checkResources hnamed (fun raw hraw => known_of_names raw (by simp [hraw]))
    ht).bind fun resources resources' u u' hresources _ h hu => ?_
  obtain rfl : resources = resources' := List.forall₂_eq_eq_eq ▸ h
  have resourced : Resourced (nestedCompiler room) graph s resources u :=
    ⟨built, t, hbuilt, hresources⟩
  -- the nodes
  refine (lockstep_buildNodes steady inside (fun x hx => hx.imp_left fun hx => sub hx)
    (fun raw hraw => known_of_names raw (by simp [hraw])) hu).bind
    fun nodes nodes' v v' hnodes _ h hv => ?_
  obtain rfl : nodes = nodes' := List.forall₂_eq_eq_eq ▸ h
  have hfrom := ((ensures_buildNodes behaves graph.nodes u).of_ok hnodes).1
  have hnodenames := (namesAs_buildNodes behaves graph.nodes u).of_ok hnodes
  rw [(resourced.settles behaves).collaborators, linked.collaborators] at hnodenames
  have hresourcenames := resourced.namesAs behaves
  rw [linked.collaborators] at hresourcenames
  -- both once more
  unfold Lockstep
  rw [run_registers, run_registers]
  refine Matches.ok rfl ?_
  have first := linkedFrom_registerAll (fresh_of_builtFrom (resourced.builtFrom behaves))
    (fun node hn x hx => by
      obtain ⟨raw, hraw, named⟩ := exists_of_mem_right hresourcenames hn
      exact known_of_names raw (by simp [hraw]) x (named x hx)) hv
  have second := linkedFrom_registerAll (fresh_of_builtFrom hfrom)
    (fun node hn x hx => by
      obtain ⟨raw, hraw, named⟩ := exists_of_mem_right hnodenames hn
      exact .inl (known_of_names raw (by simp [hraw]) x (named x hx))) first
  refine second.mono fun x hx => ?_
  rw [ids_of_builtFrom (resourced.builtFrom behaves), ids_of_builtFrom hfrom]
  rcases hx with hx | hx | hx
  · exact .inl (.inl (.inl hx))
  · exact .inr hx
  · exact .inl (.inr hx)

/-- A level is compiled the same. -/
theorem steady_compile {graph : EditorGraph} (uses : graph.Scoped c o (room + 1) scope)
    (sub : scope ⊆ ids) (linked : s.Linked c o ids ids s') :
    Steady c o ids (compile (nestedCompiler room) graph) s s' := by
  have behaves := behaves_nestedCompiler room
  have final : ∀ {e : CompileError} {t t' : Session}, e.isRecoverable = false →
      e.isRecoverable = true → t.LinkedFrom c o ids t' := fun h he => by simp [h] at he
  unfold Steady
  rw [compile_eq]
  refine (lockstep_of_run (lockstep_buildAll steady uses sub linked)
    (fun _ _ _ _ _ _ h ht => ⟨h, ht⟩) fun _ _ _ _ _ he => final he).bind
    fun _ _ t t' run run' _ ht => ?_
  obtain ⟨settles, holds, -⟩ := (ensures_buildAll behaves graph s).of_ok run
  obtain ⟨settles', holds', -⟩ := (ensures_buildAll behaves graph s').of_ok run'
  obtain ⟨all, hall, linked⟩ := ht
  have nodes : ∀ id ∈ graph.nodes.map EditorNode.id, id ∈ all := fun id hid => hall (.inr (.inl hid))
  have arranged : Lockstep (arrange graph) (arrange graph) t t'
      (fun p q => p = q ∧ Among all p.1 ∧ ∀ id ∈ p.2, id ∈ all) (Linked c o all all)
      fun e u u' => e.isRecoverable = true → u.LinkedFrom c o ids u' := by
    refine lockstep_of_run (lockstep_arrange graph nodes linked.agree)
      (fun p q u u' run run' h hu => ⟨h, ?_⟩) fun e u u' run _ _ => ?_
    · exact linked.of_agree hu ((ensures_arrange holds).of_ok run).1
        ((ensures_arrange holds').of_ok run').1
    · exact final ((ensures_arrange holds).of_error run).final
  refine arranged.bind fun p q u u' _ _ h hu => ?_
  obtain ⟨rfl, among, horder⟩ := h
  -- the level is read off where all that it needs is held the same
  have read : Corresponds Eq
      (Flattening.flow u p.1 p.2 (graph.resources.map EditorNode.id))
      (Flattening.flow u' p.1 p.2 (graph.resources.map EditorNode.id)) := by
    obtain ⟨rank, ranked⟩ := hu.sound.registry.ranked
    obtain ⟨rank', ranked'⟩ := hu.sound'.registry.ranked
    refine (Flattening.flow_corresponds hu.agree hu.agree hu.resources ranked ranked'
      hu.sound.registry.made (fun l hl => among.nodes _ (among.valid.source l hl)) horder
      fun id hid => hall (.inr (.inr hid))).mono fun flow flow' h => h.eq_of_nil
  have kept : u.LinkedFrom c o ids u' := ⟨all, fun x hx => hall (.inl hx), hu⟩
  exact lockstep_ofSession read kept fun _ _ => kept

end Building

/-- A graph that uses only what it declares or what is in scope is compiled the same, and the
sessions afterwards still hold the same. -/
theorem steadies_nestedCompiler (c : Collaborators) (o : Options) (room : Nat) :
    Steadies c o room := by
  induction room with
  | zero =>
    intro scope ids graph s s' _ _ linked
    exact .error _ fun _ => linked.linkedFrom
  | succ room ih =>
    intro scope ids graph s s' uses sub linked
    exact steady_compile ih uses sub linked

end Level

end WorkflowCompiler
