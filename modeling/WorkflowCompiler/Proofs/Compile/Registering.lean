import WorkflowCompiler.Proofs.Compile.Shuffling

/-!
# Building resources in another order

Resources without graphs of their own are built, checked and replaced independently of each other:
what a step does to the session is the same wherever it is taken. In whichever order they are
declared, the same is held in the end.
-/
namespace WorkflowCompiler

open Step

/-- Looking from the back by a key that tells the members of a list apart, one finds the same in
whichever order they stand. -/
theorem find?_reverse_of_perm {α κ : Type} [DecidableEq κ] {key : α → κ} {xs ys : List α}
    (perm : ys.Perm xs) (apart : ∀ ⦃x⦄, x ∈ xs → ∀ ⦃y⦄, y ∈ xs → key x = key y → x = y) (k : κ) :
    ys.reverse.find? (fun x => key x = k) = xs.reverse.find? fun x => key x = k := by
  have mem : ∀ x, x ∈ ys.reverse ↔ x ∈ xs.reverse := by
    intro x
    rw [List.mem_reverse, List.mem_reverse, perm.mem_iff]
  rcases hx : xs.reverse.find? (fun x => key x = k) with _ | x
  · exact List.find?_eq_none.mpr fun y hy => List.find?_eq_none.mp hx y ((mem y).mp hy)
  · have hmem := List.mem_of_find?_eq_some hx
    have hkey : key x = k := by simpa using List.find?_some hx
    rcases hy : ys.reverse.find? (fun x => key x = k) with _ | y
    · simpa [hkey] using List.find?_eq_none.mp hy x ((mem x).mpr hmem)
    · have hmem' := (mem y).mp (List.mem_of_find?_eq_some hy)
      have hkey' : key y = k := by simpa using List.find?_some hy
      rw [apart (List.mem_reverse.mp hmem') (List.mem_reverse.mp hmem) (hkey'.trans hkey.symm)]

namespace Session

variable {c : Collaborators} {o : Options} {s s' t : Session}

/-- The session with more failures recorded and more nodes registered. -/
def extend (s : Session) (failures : List NodeFailure) (nodes : List Node) : Session :=
  { s.registerAll nodes with failures := s.failures ++ failures }

theorem extend_nil (s : Session) : s.extend [] [] = s := by
  simp [extend, registerAll]

theorem registerAll_withFailures (s : Session) (failures : List NodeFailure) (nodes : List Node) :
    ({ s with failures } : Session).registerAll nodes =
      { s.registerAll nodes with failures } := by
  induction nodes generalizing s with
  | nil => rfl
  | cons node nodes ih => exact ih (s.register node)

theorem failures_registerAll (s : Session) (nodes : List Node) :
    (s.registerAll nodes).failures = s.failures := by
  induction nodes generalizing s with
  | nil => rfl
  | cons node nodes ih => exact ih (s.register node)

theorem extend_extend (s : Session) (failures failures' : List NodeFailure)
    (nodes nodes' : List Node) : (s.extend failures nodes).extend failures' nodes' =
      s.extend (failures ++ failures') (nodes ++ nodes') := by
  have all : s.registerAll (nodes ++ nodes') = (s.registerAll nodes).registerAll nodes' :=
    List.foldl_append
  unfold extend
  rw [registerAll_withFailures, all, List.append_assoc]

theorem node?_extend (s : Session) (failures : List NodeFailure) (nodes : List Node) (id : String) :
    (s.extend failures nodes).node? id =
      (nodes.reverse.find? fun node => node.id = id).or (s.node? id) :=
  s.node?_registerAll nodes id

/-- Whether a step, in whatever session with `inv`, ends with `made` after it has recorded these
failures and registered these nodes. -/
structure Adds {β : Type} (inv : Session → Prop) (m : Build β) (made : β)
    (failures : List NodeFailure) (nodes : List Node) : Prop where
  run : ∀ s, inv s → m s = (.ok made, s.extend failures nodes)
  grows : ∀ s, inv s → s.Grows (s.extend failures nodes)
  keeps : ∀ s, inv s → inv (s.extend failures nodes)

theorem adds_pure {β : Type} (inv : Session → Prop) (made : β) :
    Adds inv (pure made : Build β) made [] [] where
  run := fun s _ => by rw [extend_nil, run_pure]
  grows := fun s _ => s.extend_nil.symm ▸ .refl s
  keeps := fun s h => s.extend_nil.symm ▸ h

theorem Adds.bind {α β : Type} {inv : Session → Prop} {m : Build α} {k : α → Build β} {a : α} {b : β}
    {failures failures' : List NodeFailure} {nodes nodes' : List Node}
    (first : Adds inv m a failures nodes) (rest : Adds inv (k a) b failures' nodes') :
    Adds inv (m >>= k) b (failures ++ failures') (nodes ++ nodes') where
  run := by
    intro s h
    rw [run_bind_eq_ok]
    refine ⟨a, _, first.run s h, ?_⟩
    rw [rest.run _ (first.keeps s h), extend_extend]
  grows := by
    intro s h
    rw [← extend_extend]
    exact (first.grows s h).trans (rest.grows _ (first.keeps s h))
  keeps := by
    intro s h
    rw [← extend_extend]
    exact rest.keeps _ (first.keeps s h)

/-- A list of such steps does what they do one after the other. -/
theorem adds_mapM {α β : Type} {inv : Session → Prop} {f : α → Build β} {made : α → β}
    {failures : α → List NodeFailure} {nodes : α → List Node} {xs : List α}
    (each : ∀ x ∈ xs, Adds inv (f x) (made x) (failures x) (nodes x)) :
    Adds inv (xs.mapM f) (xs.map made) (xs.flatMap failures) (xs.flatMap nodes) := by
  induction xs with
  | nil => exact adds_pure inv []
  | cons x xs ih =>
    obtain ⟨first, rest⟩ := List.forall_mem_cons.mp each
    rw [List.mapM_cons]
    have tail := (ih rest).bind (k := fun ys => pure (made x :: ys)) (adds_pure inv _)
    rw [List.append_nil, List.append_nil] at tail
    exact first.bind tail

/-- In whichever order such steps are taken, they leave the same behind, as no two of them register a
node under the same id. -/
theorem Shuffled.mapM_perm {α β : Type} {inv : Session → Prop} {f : α → Build β} {made : α → β}
    {failures : α → List NodeFailure} {registered : α → Option Node} {key : α → String}
    {xs ys : List α} (perm : ys.Perm xs)
    (each : ∀ x ∈ xs, Adds inv (f x) (made x) (failures x) (registered x).toList)
    (keyed : ∀ x ∈ xs, ∀ node, registered x = some node → node.id = key x)
    (distinct : (xs.map key).Nodup) (h : s.Shuffled c o s') (start : inv s) (start' : inv s')
    {bs : List β} (run : (xs.mapM f) s = (.ok bs, t)) :
    bs = xs.map made ∧ ∃ t', (ys.mapM f) s' = (.ok (ys.map made), t') ∧ t.Shuffled c o t' := by
  let nodes (x : α) : List Node := (registered x).toList
  have all : Adds inv (xs.mapM f) _ _ (xs.flatMap nodes) := adds_mapM each
  have all' : Adds inv (ys.mapM f) _ _ (ys.flatMap nodes) :=
    adds_mapM fun y hy => each y (perm.mem_iff.mp hy)
  obtain ⟨hbs, rfl⟩ := Prod.mk.inj ((all.run s start).symm.trans run)
  refine ⟨(Except.ok.inj hbs).symm, _, all'.run s' start', ?_⟩
  refine h.grow (all.grows s start) (all'.grows s' start') (fun id => ?_)
    (h.failures.append (perm.flatMap_right failures))
  have apart : ∀ ⦃a⦄, a ∈ xs.flatMap nodes → ∀ ⦃b⦄, b ∈ xs.flatMap nodes → a.id = b.id → a = b := by
    intro a ha b hb hid
    obtain ⟨x, hx, ha⟩ := List.mem_flatMap.mp ha
    obtain ⟨y, hy, hb⟩ := List.mem_flatMap.mp hb
    have ha := Option.mem_toList.mp ha
    have hb := Option.mem_toList.mp hb
    have hkey : key x = key y := by rw [← keyed x hx a ha, ← keyed y hy b hb, hid]
    obtain rfl := List.inj_on_of_nodup_map distinct hx hy hkey
    exact Option.some.inj (ha.symm.trans hb)
  rw [node?_extend, node?_extend, h.node?_eq,
    find?_reverse_of_perm (perm.flatMap_right nodes) apart]

/-- In whichever order nodes with distinct ids are registered, the same is held. -/
theorem Shuffled.registerAll_perm (h : s.Shuffled c o s') {nodes nodes' : List Node}
    (perm : nodes'.Perm nodes) (distinct : (nodes.map Node.id).Nodup)
    (fresh : ∀ node ∈ nodes, node.WellMade ∧ node.members = []) :
    (s.registerAll nodes).Shuffled c o (s'.registerAll nodes') := by
  have fresh' : ∀ node ∈ nodes', node.WellMade ∧ node.members = [] :=
    fun node hn => fresh node (perm.mem_iff.mp hn)
  refine h.grow (grows_registerAll fresh) (grows_registerAll fresh') (fun id => ?_) ?_
  · rw [node?_registerAll, node?_registerAll, h.node?_eq,
      find?_reverse_of_perm perm (List.inj_on_of_nodup_map distinct)]
  · rw [failures_registerAll, failures_registerAll]
    exact h.failures

theorem contains_extend {failures : List NodeFailure} {nodes : List Node}
    (known : ∀ node ∈ nodes, s.registry.contains node.id = true) (x : String) :
    (s.extend failures nodes).registry.contains x = s.registry.contains x := by
  show ((s.extend failures nodes).node? x).isSome = (s.node? x).isSome
  rw [node?_extend]
  rcases hfind : nodes.reverse.find? (fun node => node.id = x) with _ | node
  · rw [hfind, Option.none_or]
  · have hid : node.id = x := by simpa using List.find?_some hfind
    have held := known node (List.mem_reverse.mp (List.mem_of_find?_eq_some hfind))
    rw [hfind, Option.some_or]
    exact (hid ▸ held).symm

/-- A node, or the failure of checking its resources. -/
def vetted (s : Session) (node : Node) : Except CompileError Node :=
  (s.checkResources node).map fun _ => node

end Session

namespace EditorNode

/-- The node that stands for a node of the editor after an attempt to build it. -/
def standing (raw : EditorNode) : Except CompileError Node → Node
  | .ok node => node
  | .error e => Node.placeholder raw e.message

/-- The failure of an attempt to build a node. -/
def failing (raw : EditorNode) : Except CompileError Node → List NodeFailure
  | .ok _ => []
  | .error e => [⟨raw.id, e⟩]

/-- The stand-in that an attempt to build a node makes necessary. -/
def replacing (raw : EditorNode) : Except CompileError Node → Option Node
  | .ok _ => none
  | .error e => some (Node.placeholder raw e.message)

theorem id_of_replacing (raw : EditorNode) {attempt : Except CompileError Node} {node : Node}
    (h : raw.replacing attempt = some node) : node.id = raw.id := by
  cases attempt with
  | ok => cases h
  | error e => exact Option.some.inj h ▸ rfl

theorem id_of_builtPlain {raw : EditorNode} {c : Collaborators} {node : Node}
    (plain : ¬ raw.HasGraph) (h : raw.builtPlain c = .ok node) : node.id = raw.id := by
  have run := Node.run_build_plain (Level.nestedCompiler 0) plain { collaborators := c }
  rw [show ({ collaborators := c } : Session).collaborators = c from rfl, h] at run
  exact ((Node.builtFrom_of_build _ raw _).of_ok run).id

end EditorNode

namespace Level

open Session

variable {nested : NestedCompiler} (behaves : ∀ graph s, Behaves (nested graph) s)
  {c : Collaborators} {raw : EditorNode}

include behaves

/-- A resource without a graph of its own is built the same wherever it is built. -/
theorem adds_buildResource (plain : ¬ raw.HasGraph)
    (survives : ∀ e, raw.builtPlain c = .error e → e.isRecoverable = true) :
    Adds (fun s => s.collaborators = c) (buildResource nested raw)
      (raw.standing (raw.builtPlain c)) (raw.failing (raw.builtPlain c))
      [raw.standing (raw.builtPlain c)] := by
  have run : ∀ s : Session, s.collaborators = c → buildResource nested raw s =
      (.ok (raw.standing (raw.builtPlain c)),
        s.extend (raw.failing (raw.builtPlain c)) [raw.standing (raw.builtPlain c)]) := by
    intro s hs
    unfold buildResource
    rw [run_bind, run_orPlaceholder, Node.run_build_plain nested plain, hs]
    rcases hb : raw.builtPlain c with e | node
    · simp only [survives e hb, if_true]
      rfl
    · simp only [EditorNode.standing, EditorNode.failing, extend, List.append_nil]
      rfl
  refine ⟨run, fun s hs => ?_, fun s hs => ?_⟩
  · exact ((ensures_buildResource behaves raw s).of_ok (run s hs)).2.1
  · exact ((ensures_buildResource behaves raw s).of_ok (run s hs)).2.1.collaborators.trans hs

omit behaves in
/-- A resource without a graph of its own that has been built has failed for no reason that concerns
the whole graph. -/
theorem survives_buildResource (plain : ¬ raw.HasGraph) (s : Session) :
    Ensures (buildResource nested raw) s
      (fun _ _ => ∀ e, raw.builtPlain s.collaborators = .error e → e.isRecoverable = true)
      fun _ _ => True := by
  refine ensures_of_run (fun node t run e he => ?_) fun _ _ _ => trivial
  obtain ⟨made, u, first, -⟩ := run_bind_eq_ok.mp run
  rw [run_orPlaceholder, Node.run_build_plain nested plain, he] at first
  by_contra fatal
  simp only [fatal] at first
  cases first

omit behaves in
/-- The check of a resource looks only at what else is registered, and replaces what is registered
itself. -/
theorem adds_checkResource {t : Session} (known : t.registry.contains raw.id = true)
    (resource : Node) :
    Adds (fun s => ∀ x, s.registry.contains x = t.registry.contains x) (checkResource raw resource)
      (raw.standing (t.vetted resource)) (raw.failing (t.vetted resource))
      (raw.replacing (t.vetted resource)).toList := by
  have same : ∀ s : Session, (∀ x, s.registry.contains x = t.registry.contains x) →
      s.checkResources resource = t.checkResources resource :=
    fun s hs => checkResources_congr fun x _ => hs x
  unfold Session.vetted
  rcases hcheck : t.checkResources resource with e | _
  · have hstand := Node.builtFrom_placeholder raw e.message
    refine ⟨fun s hs => ?_, fun s _ => ?_, fun s hs x => ?_⟩
    · rw [run_checkResource, same s hs, hcheck]
      rfl
    · exact (s.settles_recordFailure raw.id (Session.checkResources_error hcheck)).toGrows.trans
        ((s.recordFailure raw.id e).grows_register hstand.wellMade hstand.members)
    · refine (contains_extend (fun node hnode => ?_) x).trans (hs x)
      obtain rfl := List.mem_singleton.mp hnode
      exact (hs raw.id).trans known
  · refine ⟨fun s hs => ?_, fun s _ => ?_, fun s hs => ?_⟩
    · rw [run_checkResource, same s hs, hcheck]
      exact congrArg (Prod.mk _) s.extend_nil.symm
    · exact s.extend_nil.symm ▸ .refl s
    · exact s.extend_nil.symm ▸ hs

/-- Where resources without graphs of their own have been built, none of them has failed for a reason
that concerns the whole graph. -/
theorem survives_buildResources {resources : List EditorNode}
    (plain : ∀ raw ∈ resources, ¬ raw.HasGraph) {s t : Session} {built : List Node}
    (run : (resources.mapM (buildResource nested)) s = (.ok built, t)) :
    ∀ raw ∈ resources, ∀ e, raw.builtPlain s.collaborators = .error e → e.isRecoverable = true := by
  have each : ∀ raw ∈ resources, ∀ t : Session, t.collaborators = s.collaborators →
      Ensures (buildResource nested raw) t
        (fun _ u => (∀ e, raw.builtPlain s.collaborators = .error e → e.isRecoverable = true) ∧
          u.collaborators = s.collaborators) fun _ _ => True := by
    intro raw hraw t ht
    refine ((survives_buildResource (plain raw hraw) t).and (ensures_buildResource behaves raw t)).mono
      (fun node u hu => ?_) fun _ _ _ => trivial
    exact ⟨ht ▸ hu.1, hu.2.2.1.collaborators.trans ht⟩
  intro raw hraw
  obtain ⟨all, -⟩ := (ensures_mapM_forall₂ each rfl).of_ok run
  obtain ⟨-, -, survives⟩ := exists_of_mem_left all hraw
  exact survives

/-- The resources of a level are built and checked the same in whichever order it declares them. -/
theorem Resourced.reorder {graph : EditorGraph} {resources : List EditorNode}
    (perm : resources.Perm graph.resources) (distinct : (graph.resources.map EditorNode.id).Nodup)
    (plain : ∀ raw ∈ graph.resources, ¬ raw.HasGraph) {s u : Session} (sound : s.Sound)
    {built : List Node} (h : Resourced nested graph s built u) :
    ∃ built' u', Resourced nested { graph with resources } s built' u' ∧ built'.Perm built ∧
      u.Shuffled s.collaborators s.options u' := by
  obtain ⟨first, t, hfirst, hbuilt⟩ := h
  have survives := survives_buildResources behaves plain hfirst
  have registered := (registers_buildResources behaves graph.resources s).of_ok hfirst
  let standing (raw : EditorNode) : Node := raw.standing (raw.builtPlain s.collaborators)
  have keyed : ∀ raw ∈ graph.resources, ∀ node, some (standing raw) = some node →
      node.id = raw.id := by
    rintro raw hraw _ ⟨⟩
    unfold standing
    rcases hb : raw.builtPlain s.collaborators with e | node
    · rfl
    · exact EditorNode.id_of_builtPlain (plain raw hraw) hb
  have each : ∀ raw ∈ graph.resources, Adds (fun t => t.collaborators = s.collaborators)
      (buildResource nested raw) (standing raw) (raw.failing (raw.builtPlain s.collaborators))
      (some (standing raw)).toList := fun raw hraw =>
    adds_buildResource behaves (plain raw hraw) (survives raw hraw)
  -- first they are built
  obtain ⟨rfl, t', hfirst', ht⟩ := (Shuffled.refl sound).mapM_perm perm
    each keyed distinct rfl rfl hfirst
  -- then they are checked
  have items : ∀ raws : List EditorNode,
      raws.zip (raws.map standing) = raws.map fun raw => (raw, standing raw) := by
    intro raws
    conv => lhs; arg 1; rw [← List.map_id raws]
    exact List.zip_map'
  have ids : (graph.resources.zip (graph.resources.map standing)).map (fun p => p.1.id) =
      graph.resources.map EditorNode.id := by
    rw [items, List.map_map]
    rfl
  have perm' : (resources.zip (resources.map standing)).Perm
      (graph.resources.zip (graph.resources.map standing)) := by
    rw [items, items]
    exact perm.map _
  obtain ⟨rfl, u', hbuilt', hu⟩ := ht.mapM_perm perm'
    (fun p hp => adds_checkResource (registered p.1 (List.of_mem_zip hp).1) p.2)
    (fun p _ _ hnode => p.1.id_of_replacing hnode) (ids ▸ distinct) (fun _ => rfl)
    ht.contains_eq hbuilt
  exact ⟨_, u', ⟨_, t', hfirst', hbuilt'⟩, perm'.map _, hu⟩

end Level

end WorkflowCompiler
