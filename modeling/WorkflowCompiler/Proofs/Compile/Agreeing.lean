import WorkflowCompiler.Proofs.Compile.Recovery
import WorkflowCompiler.Proofs.Lockstep
import WorkflowCompiler.Proofs.Node.Agreeing

/-!
# Levels that agree

Two sessions that agree on the ids of a level scan its connections, fold its blocks and read it off
alike. What they hold under other ids makes no difference.
-/
namespace WorkflowCompiler

open Step

namespace Node.Alike

variable {hidden : List String} {a b : Node} (h : Alike hidden a b)

include h

theorem bindInput (handle : Option String) (source : String) :
    Alike hidden (a.bindInput handle source) (b.bindInput handle source) := by
  cases h with
  | same => exact .same _
  | @hidden node flavor compiled compiled' data data' mem beside =>
    -- binding an input looks at neither the data nor the body
    have frame : ∀ data body, Node.bindInput { node with data, body } handle source =
        { node.bindInput handle source with data, body } := by
      intro data body
      have port : Node.portFor? { node with data, body } handle = node.portFor? handle := by
        cases handle <;> rfl
      unfold Node.bindInput
      rw [port]
      cases node.portFor? handle <;> rfl
    have hid : (node.bindInput handle source).id ∈ hidden :=
      (Node.id_of_bare (node.bare_bindInput handle source)).symm ▸ mem
    rw [frame data (.subgraph flavor compiled), frame data' (.subgraph flavor compiled')]
    exact .hidden (node.bindInput handle source) flavor hid beside

theorem updateBranching (f : Branching → Branching) :
    Alike hidden (a.updateBranching f) (b.updateBranching f) := by
  cases h with
  | same => exact .same _
  | hidden node flavor mem beside => exact .hidden node flavor mem beside

theorem leave (edge : EditorEdge) :
    Corresponds (fun p q => Alike hidden p.1 q.1 ∧ p.2 = q.2) (Level.leave a edge)
      (Level.leave b edge) := by
  cases h with
  | same => exact .refl (fun p => ⟨.same p.1, rfl⟩) _
  | hidden node flavor mem beside => exact .ok ⟨.hidden node flavor mem beside, rfl⟩

end Node.Alike

namespace Registry

/-- Nodes that agree still do after the same change to both. -/
theorem Agree.modify {hidden : List String} {ids : Set String} {r r' : Registry}
    (agree : Agree hidden ids r r') {id : String} {f f' : Node → Node}
    (alike : ∀ a b, r.get? id = some a → Node.Alike hidden a b → Node.Alike hidden (f a) (f' b))
    (members : id ∈ ids → ∀ a, r.get? id = some a → ∀ m ∈ (f a).members, m ∈ a.members ∨ m ∈ ids)
    (resources : ∀ a, r.get? id = some a → (f a).resourceIds = a.resourceIds) :
    Agree hidden ids (r.modify id f) (r'.modify id f') where
  alike := by
    intro other hother
    rw [Entries.get?_modify, Entries.get?_modify]
    have held := agree.alike other hother
    split
    · next he =>
      subst he
      generalize hx : r.get? other = x, r'.get? other = y at held
      cases held with
      | none => exact .none
      | some held => exact .some (alike _ _ hx held)
    · exact held
  members := by
    intro other hother node hn m hm
    obtain ⟨rfl, a, ha, rfl⟩ | ⟨-, hn⟩ := Entries.get?_modify_cases hn
    · rcases members hother a ha m hm with hm | hm
      · exact agree.members other hother a ha m hm
      · exact hm
    · exact agree.members other hother node hn m hm
  resources := by
    intro other hother node hn x hx
    obtain ⟨rfl, a, ha, rfl⟩ | ⟨-, hn⟩ := Entries.get?_modify_cases hn
    · rw [resources a ha] at hx
      exact agree.resources other hother a ha x hx
    · exact agree.resources other hother node hn x hx

end Registry

/-- Sessions of the same surroundings whose registries agree on these ids. -/
structure Session.Agree (hidden : List String) (ids : Set String) (s s' : Session) : Prop where
  collaborators : s'.collaborators = s.collaborators
  options : s'.options = s.options
  nesting : s'.nesting = s.nesting
  registry : Registry.Agree hidden ids s.registry s'.registry

namespace Level

open Session

variable {hidden : List String} {ids : Set String} {s s' : Session}

/-- A connection is scanned alike. -/
theorem lockstep_connect {nodes : List String} (sub : ∀ id ∈ nodes, id ∈ ids) (w : Wiring)
    (edge : EditorEdge) (agree : s.Agree hidden ids s') :
    Lockstep (connect nodes w edge) (connect nodes w edge) s s' Eq (Agree hidden ids)
      fun _ => Agree hidden ids := by
  unfold Lockstep
  rw [run_connect, run_connect]
  rcases hends : checkEnds nodes edge with e | _
  · exact .error e agree
  have bound : ∀ {t t' : Session}, t.Agree hidden ids t' →
      (t.modifyNode edge.target fun node => node.bindInput edge.targetHandle edge.source).Agree hidden
        ids (t'.modifyNode edge.target fun node => node.bindInput edge.targetHandle edge.source) := by
    intro t t' h
    refine ⟨h.collaborators, h.options, h.nesting, h.registry.modify (fun a b _ h => h.bindInput _ _)
      (fun _ a _ m hm => .inl ?_) fun a _ => ?_⟩
    · have hmembers : (a.bindInput edge.targetHandle edge.source).members = a.members :=
        congrArg Prod.fst (a.outline_bindInput _ _)
      exact hmembers ▸ hm
    · exact Node.resourceIds_of_bare (a.bare_bindInput _ _)
  have held := agree.registry.alike edge.source (sub _ (checkEnds_eq_ok.mp hends).1)
  dsimp only
  unfold Session.node?
  generalize hx : s.registry.get? edge.source = x, hy : s'.registry.get? edge.source = y at held
  cases held with
  | none => exact .ok rfl (bound agree)
  | @some a b held =>
    dsimp only
    have hleave := held.leave edge
    generalize hp : leave a edge = p, leave b edge = q at hleave
    cases hleave with
    | error e => exact .error e agree
    | @ok p q related =>
      obtain ⟨made, data⟩ := p
      obtain ⟨made', data'⟩ := q
      obtain ⟨halike, rfl⟩ := related
      refine .ok rfl (bound ⟨agree.collaborators, agree.options, agree.nesting, ?_⟩)
      obtain ⟨hbare, houtline⟩ := leave_keeps hp
      refine agree.registry.modify (fun _ _ _ _ => halike) (fun _ c hc m hm => .inl ?_) fun c hc => ?_
      all_goals obtain rfl : a = c := Option.some.inj (hx.symm.trans hc)
      · have hmembers : made.members = a.members := congrArg Prod.fst houtline
        exact hmembers ▸ hm
      · exact Node.resourceIds_of_bare hbare

theorem lockstep_connectAll (graph : EditorGraph)
    (sub : ∀ id ∈ graph.nodes.map EditorNode.id, id ∈ ids) (agree : s.Agree hidden ids s') :
    Lockstep (connectAll graph) (connectAll graph) s s' Eq (Agree hidden ids)
      fun _ => Agree hidden ids := by
  unfold connectAll
  refine lockstep_foldlM (fun edge _ w w' t t' hw ht => ?_) rfl agree
  subst hw
  exact lockstep_connect sub w edge ht

end Level

namespace Block

variable {hidden : List String} {ids : Set String}

theorem bracket?_eq {r r' : Registry} (agree : Registry.Agree hidden ids r r') {id : String}
    (hid : id ∈ ids) : bracket? r' id = bracket? r id := by
  have held := agree.alike id hid
  unfold bracket?
  generalize r.get? id = x, r'.get? id = y at held
  cases held with
  | none => rfl
  | some held =>
    simp only [Option.bind_some]
    rw [held.isFork, held.isAggregator]

/-- Which brackets match depends on the brackets alone. -/
theorem matchFrom_congr {r r' : Registry} {order : List String}
    (same : ∀ id ∈ order, bracket? r' id = bracket? r id) (roots : List Block)
    (opened : List Opened) : matchFrom r' roots opened order = matchFrom r roots opened order := by
  induction order generalizing roots opened with
  | nil => cases opened <;> rfl
  | cons id order ih =>
    have rest := ih fun x hx => same x (List.mem_cons_of_mem _ hx)
    have here := same id List.mem_cons_self
    rcases hb : bracket? r id with _ | _ | _ <;> rw [hb] at here <;>
      rcases opened with _ | ⟨o, _ | ⟨parent, outer⟩⟩ <;> simp only [matchFrom, here, hb, rest]

/-- Foldings of one wiring, of nodes among these ids, with registries that agree. -/
structure Folding.Agree (hidden : List String) (ids : Set String) (f f' : Folding) : Prop where
  wiring : f'.wiring = f.wiring
  valid : f.wiring.Valid
  nodes : ∀ id ∈ f.wiring.nodes, id ∈ ids
  registry : Registry.Agree hidden ids f.registry f'.registry

/-- A block is folded alike. -/
theorem lockstep_foldOne (start stop : String) {f f' : Folding} (agree : f.Agree hidden ids f') :
    Step.Lockstep (foldOne start stop) (foldOne start stop) f f' Eq (Folding.Agree hidden ids)
      fun _ => Folding.Agree hidden ids := by
  unfold Step.Lockstep
  rw [run_foldOne, run_foldOne, agree.wiring]
  rcases hregions : f.wiring.regionsByKey start stop with e | _ | bodies
  · exact .error e agree
  · exact .error _ agree
  obtain ⟨-, -, rfl⟩ := Wiring.regionsByKey_eq_some hregions
  have registry : Registry.Agree hidden ids (assigned f start stop)
      (f'.registry.modify start fun node => node.updateBranching fun b =>
        b.assign (Wiring.group stop (f.wiring.paths start stop))) :=
    agree.registry.modify (fun a b _ h => h.updateBranching _) (fun _ a _ m hm => ?_)
      fun a _ => Node.resourceIds_of_bare (a.bare_updateBranching fun _ => rfl)
  · dsimp only
    rcases hcompress : f.wiring.compress start stop with e | w
    · exact .error e ⟨rfl, agree.valid, agree.nodes, registry⟩
    · have folds := agree.valid.folds hcompress
      exact .ok rfl ⟨rfl, folds.valid, fun id hid => agree.nodes id (folds.mem_nodes.mp hid).1,
        registry⟩
  · rcases mem_members_updateBranching hm with ⟨body, hbody, hin⟩ | hin
    · exact .inr (agree.nodes m
        (agree.valid.mem_of_mem_between (Wiring.mem_between_of_mem_group hbody hin)))
    · exact .inl hin

theorem lockstep_foldAll (blocks : List Block) {f f' : Folding} (agree : f.Agree hidden ids f') :
    Step.Lockstep (foldAll blocks) (foldAll blocks) f f' Eq (Folding.Agree hidden ids)
      fun _ => Folding.Agree hidden ids := by
  rw [foldAll_eq]
  exact Step.lockstep_forM (fun p _ _ _ h => lockstep_foldOne p.1 p.2 h) agree

end Block

namespace Level

open Session

variable {hidden : List String} {ids : Set String} {s s' : Session}

/-- A wiring of nodes among these ids. -/
structure Among (ids : Set String) (w : Wiring) : Prop where
  valid : w.Valid
  nodes : ∀ id ∈ w.nodes, id ∈ ids

theorem lockstep_foldBlocks (blocks : List Block) {w : Wiring} (among : Among ids w)
    (agree : s.Agree hidden ids s') :
    Lockstep (foldBlocks blocks w) (foldBlocks blocks w) s s' (fun w w' => w = w' ∧ Among ids w)
      (Agree hidden ids) fun _ => Agree hidden ids := by
  have start : Block.Folding.Agree hidden ids ⟨s.registry, w⟩ ⟨s'.registry, w⟩ :=
    ⟨rfl, among.valid, among.nodes, agree.registry⟩
  have folded := Block.lockstep_foldAll blocks start
  unfold Lockstep at folded
  unfold Lockstep foldBlocks
  generalize Block.foldAll blocks ⟨s.registry, w⟩ = p, Block.foldAll blocks ⟨s'.registry, w⟩ = p'
    at folded
  cases folded with
  | ok _ after =>
    exact .ok ⟨after.wiring.symm, after.valid, after.nodes⟩
      ⟨agree.collaborators, agree.options, agree.nesting, after.registry⟩
  | error e after =>
    exact .error e ⟨agree.collaborators, agree.options, agree.nesting, after.registry⟩

/-- A built level is arranged alike. -/
theorem lockstep_arrange (graph : EditorGraph)
    (sub : ∀ id ∈ graph.nodes.map EditorNode.id, id ∈ ids) (agree : s.Agree hidden ids s') :
    Lockstep (arrange graph) (arrange graph) s s'
      (fun p q => p = q ∧ Among ids p.1 ∧ ∀ id ∈ p.2, id ∈ ids) (Agree hidden ids)
      fun _ => Agree hidden ids := by
  unfold arrange
  refine (lockstep_connectAll graph sub agree).bind fun w w' t t' run _ hw ht => ?_
  subst hw
  obtain ⟨-, rfl, scanned⟩ := (ensures_connectAll graph s).of_ok run
  have among : Among ids (wiring s.registry graph) := ⟨valid_wiring s.registry graph, fun id hid =>
    sub id ((Wiring.mem_nodes_wired (ends_of_edges scanned.ends)).mp hid)⟩
  refine (lockstep_lift (.refl (fun _ => rfl) _) ht fun _ => ht).bind
    fun order order' u u' hsort _ hd hu => ?_
  subst hd
  have isOrder := among.valid.isOrder_of_topologicalOrder (Prod.mk.inj hsort).1
  have horder : ∀ id ∈ order, id ∈ ids := fun id hid =>
    among.nodes id (isOrder.perm.mem_iff.mp hid)
  have matched : Corresponds Eq (Block.matchAll u.registry order)
      (Block.matchAll u'.registry order) := by
    unfold Block.matchAll
    rw [Block.matchFrom_congr fun id hid => Block.bracket?_eq hu.registry (horder id hid)]
    exact .refl (fun _ => rfl) _
  refine (lockstep_ofSession matched hu fun _ => hu).bind fun blocks blocks' v v' _ _ hd hv => ?_
  subst hd
  refine (lockstep_foldBlocks blocks among hv).bind fun w w' x x' _ _ hw hx => ?_
  exact lockstep_pure ⟨Prod.ext hw.1 rfl, hw.2, horder⟩ hx

end Level

/-- Two flows that are the same without the arguments of hidden sub-graphs, of some among the nodes
and of others among the resources. -/
structure Flow.SameBut (hidden hidden' : List String) (flow flow' : Flow) : Prop where
  nodes : List.Forall₂ (Json.SameBut hidden) flow.nodes flow'.nodes
  edges : flow.edges = flow'.edges
  resources : List.Forall₂ (Json.SameBut hidden') flow.resources flow'.resources

namespace Flow.SameBut

variable {hidden hidden' : List String} {flow flow' : Flow} (h : flow.SameBut hidden hidden' flow')

include h

theorem nodes_eq : flow.nodes.map (Json.redactedFields hidden) =
    flow'.nodes.map (Json.redactedFields hidden) := Json.map_eq_of_sameBut h.nodes

theorem resources_eq : flow.resources.map (Json.redactedFields hidden') =
    flow'.resources.map (Json.redactedFields hidden') := Json.map_eq_of_sameBut h.resources

omit h in
theorem eq_of_nil (h : flow.SameBut [] [] flow') : flow = flow' := by
  have nodes := h.nodes_eq
  have resources := h.resources_eq
  rw [funext Json.redactedFields_nil, List.map_id', List.map_id'] at nodes resources
  obtain ⟨n, e, r⟩ := flow
  obtain ⟨n', e', r'⟩ := flow'
  obtain rfl : n = n' := nodes
  obtain rfl : e = e' := h.edges
  obtain rfl : r = r' := resources
  rfl

end Flow.SameBut

namespace Flattening

open Json

section Read

variable {hidden : List String} {ids : Set String} {s s' : Session}
  (agree : s.Agree hidden ids s')

include agree

theorem lookup_corresponds {id : String} (hid : id ∈ ids) (requiredBy : String) :
    Corresponds (fun a b => Node.Alike hidden a b ∧ s.node? id = some a ∧ s'.node? id = some b)
      (lookup s id requiredBy) (lookup s' id requiredBy) := by
  have held := agree.registry.alike id hid
  unfold lookup Session.node?
  generalize s.registry.get? id = x, s'.registry.get? id = y at held
  cases held with
  | none => exact .error _
  | some held => exact .ok ⟨held, rfl, rfl⟩

/-- The connections into a node depend on what is held under the ids alone. -/
theorem edgesInto_eq {w : Wiring} (sources : ∀ p ∈ w.placed, p.link.source ∈ ids) (id : String)
    {a b : Node} (alike : Node.Alike hidden a b) : edgesInto s w id a = edgesInto s' w id b := by
  unfold edgesInto
  rw [alike.sortedByPort]
  refine mapM_congr fun l hl => ?_
  obtain ⟨p, hp, rfl⟩ := List.mem_map.mp ((List.mergeSort_perm _ _).mem_iff.mp hl)
  have hsource := sources p (List.mem_filter.mp hp).1
  have looked := lookup_corresponds agree hsource id
  unfold flowEdge
  refine Corresponds.eq (looked.bind fun c d hcd => .ok ?_)
  rw [hcd.1.emittedId, alike.emittedId]

variable {rank rank' : String → Nat} (ranked : s.registry.RankedBy rank)
  (ranked' : s'.registry.RankedBy rank')
  (made : ∀ id node, s.registry.get? id = some node → node.WellMade)

include ranked ranked' made

theorem emit_corresponds {id : String} (hid : id ∈ ids) {a b : Node} (ha : s.node? id = some a)
    (hb : s'.node? id = some b) : Corresponds (SameBut hidden) (s.emit a) (s'.emit b) := by
  unfold Session.emit
  rw [agree.options]
  exact agree.registry.emit ranked ranked' made _ hid ha hb

theorem emitNodes_corresponds {w : Wiring} (sources : ∀ p ∈ w.placed, p.link.source ∈ ids)
    {order : List String} (sub : ∀ id ∈ order, id ∈ ids) :
    Corresponds (fun p q => List.Forall₂ (SameBut hidden) p.1 q.1 ∧ p.2 = q.2)
      (emitNodes s w order) (emitNodes s' w order) := by
  induction order with
  | nil => exact .ok ⟨.nil, rfl⟩
  | cons id order ih =>
    have rest := ih fun x hx => sub x (List.mem_cons_of_mem _ hx)
    have hid := sub id List.mem_cons_self
    rw [emitNodes_cons, emitNodes_cons]
    refine (lookup_corresponds agree hid id).bind fun a b ⟨alike, ha, hb⟩ => ?_
    have here : Corresponds (List.Forall₂ (SameBut hidden)) (entries s a) (entries s' b) := by
      unfold entries
      rw [alike.isStructural]
      split
      · exact .ok .nil
      · exact (emit_corresponds agree ranked ranked' made hid ha hb).map fun _ _ h => .cons h .nil
    refine here.bind fun xs ys hxs => ?_
    rw [edgesInto_eq agree sources id alike]
    refine (Corresponds.refl (fun _ => rfl) (edgesInto s' w id b)).bind fun es es' hes => ?_
    refine rest.bind fun p q hpq => .ok ⟨List.rel_append hxs hpq.1, ?_⟩
    rw [show es = es' from hes, hpq.2]

end Read

/-- The same ids, and the same emitted but for the arguments of hidden sub-graphs. -/
structure Resources.SameBut (hidden : List String) (r r' : Resources) : Prop where
  seen : r.seen = r'.seen
  emitted : List.Forall₂ (Json.SameBut hidden) r.emitted r'.emitted

theorem Resources.SameBut.add {hidden : List String} {r r' : Resources} (h : r.SameBut hidden r')
    {id : String} {fields fields' : JsonObject} (same : Json.SameBut hidden fields fields') :
    (addResource r (id, fields)).SameBut hidden (addResource r' (id, fields')) := by
  unfold addResource
  rw [← h.seen]
  dsimp only
  split
  · exact h
  · exact ⟨rfl, List.rel_append h.emitted (.cons same .nil)⟩

theorem Resources.SameBut.addAll {hidden : List String} {r r' : Resources}
    (h : r.SameBut hidden r') {entries entries' : List (String × JsonObject)}
    (same : List.Forall₂ (fun e e' => e.1 = e'.1 ∧ Json.SameBut hidden e.2 e'.2) entries entries') :
    (entries.foldl addResource r).SameBut hidden (entries'.foldl addResource r') := by
  induction same generalizing r r' with
  | nil => exact h
  | @cons e e' _ _ first _ ih =>
    obtain ⟨id, fields⟩ := e
    obtain ⟨id', fields'⟩ := e'
    obtain ⟨rfl, hfields⟩ := first
    exact ih (h.add hfields)

/-- A level is read off alike, with nodes hidden that may be others than those that are hidden among
the resources. -/
theorem flow_corresponds {hidden hidden' : List String} {ids declared : Set String}
    {s s' : Session} (agree : s.Agree hidden ids s') (agree' : s.Agree hidden' declared s')
    (uses : ∀ id ∈ ids, ∀ node, s.registry.get? id = some node → ∀ x ∈ node.resourceIds,
      x ∈ declared)
    {rank rank' : String → Nat} (ranked : s.registry.RankedBy rank)
    (ranked' : s'.registry.RankedBy rank')
    (made : ∀ id node, s.registry.get? id = some node → node.WellMade) {w : Wiring}
    (sources : ∀ p ∈ w.placed, p.link.source ∈ ids) {order resources : List String}
    (sub : ∀ id ∈ order, id ∈ ids) (sub' : ∀ id ∈ resources, id ∈ declared) :
    Corresponds (Flow.SameBut hidden hidden') (flow s w order resources)
      (flow s' w order resources) := by
  have left : ∀ id ∈ order.filter w.contains, id ∈ ids := fun id hid =>
    sub id (List.mem_filter.mp hid).1
  unfold flow
  refine (emitNodes_corresponds agree ranked ranked' made sources left).bind fun p q hpq => ?_
  have first : Corresponds (Resources.SameBut hidden') (resources.foldlM (emitDeclared s) {})
      (resources.foldlM (emitDeclared s') {}) := by
    refine Corresponds.foldlM (fun id hid r r' h => ?_) ⟨rfl, .nil⟩
    unfold emitDeclared
    refine (lookup_corresponds agree' (sub' id hid) id).bind fun a b ⟨alike, ha, hb⟩ => ?_
    rw [alike.lowerKind, h.seen]
    split
    · refine (emit_corresponds agree' ranked ranked' made (sub' id hid) ha hb).bind
        fun fields fields' hf => .ok ⟨rfl, ?_⟩
      exact List.rel_append h.emitted (.cons hf .nil)
    · exact .ok h
  refine first.bind fun r r' hr => ?_
  have second : Corresponds (Resources.SameBut hidden') ((order.filter w.contains).foldlM (emitUsed s) r)
      ((order.filter w.contains).foldlM (emitUsed s') r') := by
    refine Corresponds.foldlM (fun id hid r r' h => ?_) hr
    unfold emitUsed
    refine (lookup_corresponds agree (left id hid) id).bind fun a b ⟨alike, ha, hb⟩ => ?_
    unfold Session.resourcesOf
    rw [agree.options]
    refine (Registry.resourcesOf_corresponds agree.registry agree'.registry uses ranked ranked' made
      _ (left id hid) ha hb).bind fun entries entries' he => .ok (h.addAll he)
  exact second.bind fun r r' h => .ok ⟨hpq.1, hpq.2, h.emitted⟩

end Flattening

end WorkflowCompiler
