import WorkflowCompiler.Proofs.Session

/-!
# Building a level

Resources are registered before they are checked, so while they are built, nested graphs may meet
nodes with unknown resources. Each of these has been checked or replaced before the nodes of the
level are built, and every node is checked before it is registered.
-/
namespace WorkflowCompiler

open Step

namespace Session

/-- The session inside the graph of an app. -/
def within (s : Session) (app : String) : Session := { s with nesting := s.nesting ++ [app] }

theorem Grows.leave {s t : Session} {app : String} (h : (s.within app).Grows t) :
    s.Grows t.leave where
  collaborators := h.collaborators
  options := h.options
  nesting := by
    show t.nesting.dropLast = s.nesting
    rw [h.nesting]
    exact List.dropLast_concat
  registered := h.registered
  failures := h.failures
  sound := by
    intro hs
    have ht := h.sound ⟨hs.registry, hs.failures⟩
    exact ⟨ht.registry, ht.failures⟩

theorem Settles.leave {s t : Session} {app : String} (h : (s.within app).Settles t) :
    s.Settles t.leave :=
  ⟨h.toGrows.leave, h.closed⟩

theorem enter_eq_ok {s t : Session} {app : String} (h : s.enter app = .ok t) : t = s.within app := by
  unfold enter at h
  split at h
  · cases h
  · split at h
    · cases h
    · exact (Except.ok.inj h).symm

/-- Entering the graph of an app looks at the nesting and at how deep it may go. -/
theorem enter_corresponds {s t : Session} (nesting : t.nesting = s.nesting)
    (options : t.options = s.options) (app : String) :
    Corresponds (fun u v => u = s.within app ∧ v = t.within app) (s.enter app) (t.enter app) := by
  unfold enter depth
  rw [nesting, options]
  split
  · exact .error _
  · split
    · exact .error _
    · exact .ok ⟨rfl, by rw [within, nesting, options]⟩

end Session

namespace Node

theorem run_inside {α : Type} (app : String) (step : Build α) (s : Session) :
    inside app step s =
      match s.enter app with
      | .ok t => ((step t).1, (step t).2.leave)
      | .error e => (.error e, s) := by
  unfold inside
  rw [run_bind, run_ofSession]
  rcases s.enter app with e | t
  · rfl
  · dsimp only
    rw [run_bind]
    rfl

/-- A step inside the graph of an app ends with the nesting that it started with. -/
theorem behaves_inside {α : Type} {app : String} {step : Build α} {s : Session}
    (h : Session.Behaves step (s.within app)) : Session.Behaves (inside app step) s := by
  unfold Session.Behaves Ensures
  rw [run_inside]
  rcases he : s.enter app with e | t
  · exact (Session.Settles.refl s).stops e
  · obtain rfl := Session.enter_eq_ok he
    unfold Session.Behaves Ensures at h
    rcases hrun : step (s.within app) with ⟨e | a, t⟩
    · rw [hrun] at h
      simp only [hrun]
      exact ⟨h.grows.leave, fun he => (h.settles he).leave⟩
    · rw [hrun] at h
      simp only [hrun]
      exact h.leave

theorem behaves_buildNested {nested : NestedCompiler}
    (h : ∀ graph s, Session.Behaves (nested graph) s) (node : Node) (s : Session) :
    Session.Behaves (buildNested nested node) s := by
  unfold buildNested
  refine Session.behaves_bind (ensures_lift (fun _ _ => .refl s) fun e _ =>
    (Session.Settles.refl s).stops e) fun flavor t => ?_
  refine Session.behaves_bind (Session.behaves_ofSession _ t) fun graph t => ?_
  refine Session.behaves_bind (behaves_inside (h graph _)) fun compiled t => ?_
  exact ensures_pure (.refl t)

theorem behaves_build {nested : NestedCompiler}
    (h : ∀ graph s, Session.Behaves (nested graph) s) (raw : EditorNode) (s : Session) :
    Session.Behaves (build nested raw) s := by
  unfold build
  dsimp only
  split
  · exact ensures_throw ((Session.Settles.refl s).stops _)
  · exact behaves_buildNested h _ s
  · exact Session.behaves_ofSession _ s

end Node

namespace Session

/-- All resources that a node names are registered. -/
def Knows (s : Session) (node : Node) : Prop :=
  ∀ x ∈ node.resourceIds, s.registry.contains x = true

theorem Knows.after {s t : Session} {node : Node} (h : s.Knows node) (g : s.Grows t) :
    t.Knows node := fun x hx => g.registered x (h x hx)

theorem knows_placeholder (s : Session) (raw : EditorNode) (reason : String) :
    s.Knows (Node.placeholder raw reason) := by
  intro x hx
  simp [Node.resourceIds, Node.placeholder, Node.ofEditor, Entries.values] at hx

theorem knows_of_checkResources {s : Session} {node : Node}
    (h : s.checkResources node = .ok ()) : s.Knows node := by
  intro x hx
  unfold checkResources at h
  split at h
  · cases h
  · next hnone =>
    have hx := List.find?_eq_none.mp hnone x hx
    simpa using hx

theorem checkResources_error {s : Session} {node : Node} {e : CompileError}
    (h : s.checkResources node = .error e) : e.isRecoverable = true := by
  unfold checkResources at h
  split at h
  · cases h
    rfl
  · cases h

/-- The check looks at the resources that the node names and at nothing else. -/
theorem checkResources_congr {s t : Session} {node : Node}
    (h : ∀ x ∈ node.resourceIds, t.registry.contains x = s.registry.contains x) :
    t.checkResources node = s.checkResources node := by
  have hfind : node.resourceIds.find? (fun id => !t.registry.contains id) =
      node.resourceIds.find? fun id => !s.registry.contains id := by
    generalize node.resourceIds = ids at h
    induction ids with
    | nil => rfl
    | cons x xs ih =>
      rw [List.find?_cons, List.find?_cons, h x List.mem_cons_self,
        ih fun y hy => h y (List.mem_cons_of_mem _ hy)]
  unfold checkResources
  rw [hfind]

theorem checkResources_of_nil (s : Session) {node : Node} (h : node.resourceIds = []) :
    s.checkResources node = .ok () := by
  unfold checkResources
  rw [h]
  rfl

theorem node?_register (s : Session) (node : Node) (id : String) :
    (s.register node).node? id = if id = node.id then some node else s.node? id :=
  Entries.get?_insert _ _ _ _

/-- What is found after a node has been registered is that node, or was found before. -/
theorem node?_register_cases {s : Session} {node found : Node} {id : String}
    (h : (s.register node).node? id = some found) :
    (id = node.id ∧ found = node) ∨ (id ≠ node.id ∧ s.node? id = some found) :=
  Entries.get?_insert_cases h

/-- What is to be checked of registered nodes. -/
def pendingOf (nodes : List Node) : List (String × List String) :=
  nodes.map fun node => (node.id, node.resourceIds)

/-- Registers nodes one after the other. -/
def registerAll (s : Session) (nodes : List Node) : Session := nodes.foldl register s

theorem run_register (nodes : List Node) (s : Session) :
    (nodes.forM Level.register) s = (.ok (), s.registerAll nodes) := by
  induction nodes generalizing s with
  | nil => rfl
  | cons node nodes ih => exact ih (s.register node)

/-- The nodes of two lists are registered one after the other. -/
theorem run_registers (first second : List Node) (s : Session) :
    (first.forM Level.register >>= fun _ => second.forM Level.register) s =
      (.ok (), (s.registerAll first).registerAll second) := by
  rw [run_bind, run_register]
  exact run_register second _

theorem grows_registerAll {s : Session} {nodes : List Node}
    (fresh : ∀ node ∈ nodes, node.WellMade ∧ node.members = []) : s.Grows (s.registerAll nodes) := by
  induction nodes generalizing s with
  | nil => exact .refl s
  | cons node nodes ih =>
    obtain ⟨first, rest⟩ := List.forall_mem_cons.mp fresh
    exact (s.grows_register first.1 first.2).trans (ih rest)

theorem settles_registerAll {s : Session} {nodes : List Node}
    (made : ∀ node ∈ nodes, node.WellMade ∧ node.members = [])
    (known : ∀ node ∈ nodes, s.Knows node) : s.Settles (s.registerAll nodes) := by
  induction nodes generalizing s with
  | nil => exact .refl s
  | cons node nodes ih =>
    obtain ⟨hmade, hmembers⟩ := made node List.mem_cons_self
    have first := s.settles_register hmade hmembers (known node List.mem_cons_self)
    refine first.trans (ih (fun n hn => made n (List.mem_cons_of_mem _ hn)) fun n hn => ?_)
    exact (known n (List.mem_cons_of_mem _ hn)).after first.toGrows

theorem node?_registerAll (s : Session) (nodes : List Node) (id : String) :
    (s.registerAll nodes).node? id =
      (nodes.reverse.find? fun node => node.id = id).or (s.node? id) := by
  induction nodes generalizing s with
  | nil => rfl
  | cons node nodes ih =>
    show ((s.register node).registerAll nodes).node? id = _
    rw [ih, node?_register, List.reverse_cons, List.find?_append]
    by_cases h : node.id = id
    · cases nodes.reverse.find? (fun node => node.id = id) <;> simp [h]
    · cases nodes.reverse.find? (fun node => node.id = id) <;> simp [h, Ne.symm h]

/-- What is registered after these nodes is one of them, or was there before. -/
theorem node?_registerAll_eq_some {s : Session} {nodes : List Node} {id : String} {node : Node}
    (h : (s.registerAll nodes).node? id = some node) :
    node ∈ nodes ∧ node.id = id ∨ id ∉ nodes.map Node.id ∧ s.node? id = some node := by
  rw [node?_registerAll] at h
  rcases hfind : nodes.reverse.find? (fun node => node.id = id) with _ | found
  · rw [hfind, Option.none_or] at h
    refine .inr ⟨fun hid => ?_, h⟩
    obtain ⟨other, hother, he⟩ := List.mem_map.mp hid
    simpa [he] using List.find?_eq_none.mp hfind other (List.mem_reverse.mpr hother)
  · rw [hfind, Option.some_or] at h
    obtain rfl := Option.some.inj h
    exact .inl ⟨List.mem_reverse.mp (List.mem_of_find?_eq_some hfind),
      by simpa using List.find?_some hfind⟩

theorem ids_of_builtFrom {raws : List EditorNode} {nodes : List Node}
    (h : List.Forall₂ Node.BuiltFrom raws nodes) :
    nodes.map Node.id = raws.map EditorNode.id := by
  induction h with
  | nil => rfl
  | cons first _ ih => rw [List.map_cons, List.map_cons, first.id, ih]

/-- Among nodes with distinct ids, looking for an id from the back finds the node with it. -/
theorem find?_reverse_of_nodup {nodes : List Node} (nodup : (nodes.map Node.id).Nodup) {node : Node}
    (h : node ∈ nodes) : nodes.reverse.find? (fun other => other.id = node.id) = some node := by
  rcases hfind : nodes.reverse.find? (fun other => other.id = node.id) with _ | other
  · simpa using List.find?_eq_none.mp hfind node (List.mem_reverse.mpr h)
  · have hid : other.id = node.id := by simpa using List.find?_some hfind
    have hother := List.mem_reverse.mp (List.mem_of_find?_eq_some hfind)
    exact hfind.trans (congrArg some (List.inj_on_of_nodup_map nodup hother h hid))

/-- Every one of these nodes is registered as it was built, from the last of those with its id. -/
def Holds (s : Session) (raws : List EditorNode) : Prop :=
  ∀ raw ∈ raws, ∃ made ∈ raws, made.id = raw.id ∧
    ∃ node, s.node? raw.id = some node ∧ Node.BuiltFrom made node

theorem holds_registerAll {s : Session} {raws : List EditorNode} {nodes : List Node}
    (built : List.Forall₂ Node.BuiltFrom raws nodes) : (s.registerAll nodes).Holds raws := by
  intro raw hraw
  obtain ⟨first, hfirst, hid, -⟩ := exists_of_mem_left built hraw
  rcases hfind : nodes.reverse.find? (fun node => node.id = raw.id) with _ | node
  · have hno := List.find?_eq_none.mp hfind first (List.mem_reverse.mpr hfirst)
    simp [hid] at hno
  · have hid : node.id = raw.id := by simpa using List.find?_some hfind
    obtain ⟨made, hmade, hbuilt⟩ :=
      exists_of_mem_right built (List.mem_reverse.mp (List.mem_of_find?_eq_some hfind))
    refine ⟨made, hmade, ?_, node, ?_, hbuilt⟩
    · exact hbuilt.id.symm.trans hid
    · rw [node?_registerAll, hfind]
      rfl

end Session

namespace Level

open Session

/-- A stand-in takes the place of a node that fails for a reason of its own. -/
theorem ensures_orPlaceholder {raw : EditorNode} {step : Build Node} {s : Session}
    {done : Node → Session → Prop} {failed failed' : CompileError → Session → Prop}
    (h : Ensures step s done failed)
    (standIn : ∀ e t, failed e t → e.isRecoverable = true →
      done (Node.placeholder raw e.message) (t.recordFailure raw.id e))
    (abort : ∀ e t, failed e t → e.isRecoverable = false → failed' e t) :
    Ensures (orPlaceholder raw step) s done failed' := by
  unfold Ensures orPlaceholder
  rcases hrun : step s with ⟨e | node, t⟩
  · have hstop := h.of_error hrun
    by_cases he : e.isRecoverable = true
    · simp only [he, if_true]
      exact standIn e t hstop he
    · simp only [he]
      exact abort e t hstop (by simpa using he)
  · exact h.of_ok hrun

/-- The stand-in, too, is built from what it stands for, and the session stays in order. -/
theorem ensures_settles_orPlaceholder {raw : EditorNode} {step : Build Node} {s : Session}
    (good : Node → Session → Prop) (standIn : ∀ reason t, good (Node.placeholder raw reason) t)
    (h : Ensures step s (fun node t => Node.BuiltFrom raw node ∧ s.Settles t ∧ good node t)
      s.Stops) :
    Ensures (orPlaceholder raw step) s
      (fun node t => Node.BuiltFrom raw node ∧ s.Settles t ∧ good node t) s.Aborts := by
  refine ensures_orPlaceholder h (fun e t hstop he => ?_) fun e t hstop he => ⟨hstop.grows, he⟩
  have hrecord := t.settles_recordFailure raw.id he
  exact ⟨Node.builtFrom_placeholder raw _, (hstop.settles he).trans hrecord, standIn _ _⟩

/-- What is returned has just been registered. -/
theorem ensures_registered {node : Node} {s : Session} {done : Node → Session → Prop}
    {failed : CompileError → Session → Prop} (h : done node (s.register node)) :
    Ensures (do register node; return node) s done failed := ensures_of_ok rfl h

variable {nested : NestedCompiler} (behaves : ∀ graph s, Behaves (nested graph) s)

include behaves

/-- A node is built from what it stands for, and the session stays in order. -/
theorem ensures_build (raw : EditorNode) (s : Session) :
    Ensures (Node.build nested raw) s (fun node t => Node.BuiltFrom raw node ∧ s.Settles t)
      s.Stops :=
  ((Node.builtFrom_of_build nested raw s).and (Node.behaves_build behaves raw s)).mono
    (fun _ _ h => h) fun _ _ h => h.2

theorem ensures_buildNode (raw : EditorNode) (s : Session) :
    Ensures (buildNode nested raw) s
      (fun node t => Node.BuiltFrom raw node ∧ s.Settles t ∧ t.Knows node) s.Aborts := by
  refine ensures_settles_orPlaceholder (fun node t => t.Knows node)
    (fun reason t => t.knows_placeholder raw reason) ?_
  refine (ensures_build behaves raw s).bind fun node t ht => ?_
  unfold checked
  refine ensures_ofSession_bind (fun _ hok => ?_) fun e _ => ht.2.stops e
  exact ensures_pure ⟨ht.1, ht.2, knows_of_checkResources hok⟩

theorem ensures_orPlaceholder_build (raw : EditorNode) (s : Session) :
    Ensures (orPlaceholder raw (Node.build nested raw)) s
      (fun node t => Node.BuiltFrom raw node ∧ s.Settles t) s.Aborts :=
  (ensures_settles_orPlaceholder (fun _ _ => True) (fun _ _ => trivial)
    ((ensures_build behaves raw s).mono (fun _ _ h => ⟨h.1, h.2, trivial⟩) fun _ _ h => h)).mono
    (fun _ _ h => ⟨h.1, h.2.1⟩) fun _ _ h => h

/-- A resource is registered before it is checked. -/
theorem ensures_buildResource (raw : EditorNode) (s : Session) :
    Ensures (buildResource nested raw) s
      (fun node t => Node.BuiltFrom raw node ∧ s.Grows t ∧
        ∀ pending, s.registry.Closed pending →
          t.registry.Closed ((node.id, node.resourceIds) :: pending))
      s.Aborts := by
  refine (ensures_orPlaceholder_build behaves raw s).bind fun node t ht => ?_
  obtain ⟨hbuilt, hsettles⟩ := ht
  have hgrows := hsettles.toGrows.trans (t.grows_register hbuilt.wellMade hbuilt.members)
  refine ensures_registered ⟨hbuilt, hgrows, fun pending hs => ?_⟩
  exact (hsettles.closed pending hs).insert (fun _ hp _ => List.mem_cons_of_mem _ hp)
    (.inl List.mem_cons_self)

/-- After all resources have been built, what is to be checked of them is pending. -/
theorem ensures_buildResources (resources : List EditorNode) (s : Session) :
    Ensures (resources.mapM (buildResource nested)) s
      (fun nodes t => List.Forall₂ Node.BuiltFrom resources nodes ∧ s.Grows t ∧
        ∀ pending, s.registry.Closed pending →
          t.registry.Closed (pendingOf nodes ++ pending))
      s.Aborts := by
  refine ensures_mapM (fun done nodes t => List.Forall₂ Node.BuiltFrom done nodes ∧
    s.Grows t ∧ ∀ pending, s.registry.Closed pending →
      t.registry.Closed (pendingOf nodes ++ pending)) ?_ ⟨.nil, .refl s, fun _ h => h⟩
  intro before raw after nodes t _ ht
  obtain ⟨hbuilt, hgrows, hclosed⟩ := ht
  refine (ensures_buildResource behaves raw t).mono (fun node u hu => ?_) fun e u hu =>
    hu.after hgrows
  refine ⟨List.rel_append hbuilt (.cons hu.1 .nil), hgrows.trans hu.2.1, fun pending hs => ?_⟩
  refine (hu.2.2 _ (hclosed pending hs)).mono fun p hp => ?_
  simp only [pendingOf, List.map_append, List.map_cons, List.map_nil, List.mem_append,
    List.mem_cons, List.not_mem_nil, or_false] at hp ⊢
  tauto

omit behaves in
/-- A resource that does not pass is replaced at once. -/
theorem run_checkResource (raw : EditorNode) (resource : Node) (s : Session) :
    checkResource raw resource s =
      match s.checkResources resource with
      | .ok () => (.ok resource, s)
      | .error e => (.ok (Node.placeholder raw e.message),
          (s.recordFailure raw.id e).register (Node.placeholder raw e.message)) := by
  unfold checkResource
  rcases hcheck : s.checkResources resource with e | _
  · have hrun : orPlaceholder raw (throw e) s =
        (.ok (Node.placeholder raw e.message), s.recordFailure raw.id e) := by
      simp [orPlaceholder, checkResources_error hcheck]
    dsimp only
    rw [run_bind, hrun]
    rfl
  · rfl

omit behaves in
theorem ensures_checked_or_replaced {raw : EditorNode} {resource : Node} {s : Session}
    {done : Node → Session → Prop} {failed : CompileError → Session → Prop}
    (passes : s.checkResources resource = .ok () → done resource s)
    (replaced : ∀ e, s.checkResources resource = .error e →
      done (Node.placeholder raw e.message)
        ((s.recordFailure raw.id e).register (Node.placeholder raw e.message))) :
    Ensures (checkResource raw resource) s done failed := by
  unfold Ensures
  rw [run_checkResource]
  rcases hcheck : s.checkResources resource with e | _
  · exact replaced e hcheck
  · exact passes hcheck

omit behaves in
/-- A resource that does not pass is replaced, so afterwards it need not be checked any more. -/
theorem ensures_checkResource {raw : EditorNode} {resource : Node}
    (hbuilt : Node.BuiltFrom raw resource) (s : Session) :
    Ensures (checkResource raw resource) s
      (fun node t => Node.BuiltFrom raw node ∧ s.Grows t ∧ t.Knows node ∧
        ∀ pending, s.registry.Closed ((resource.id, resource.resourceIds) :: pending) →
          t.registry.Closed pending)
      s.Aborts := by
  refine ensures_checked_or_replaced (fun hcheck => ?_) fun e hcheck => ?_
  · have hknown := knows_of_checkResources hcheck
    exact ⟨hbuilt, .refl s, hknown, fun pending hs => hs.settle hknown⟩
  · have hstand := Node.builtFrom_placeholder raw e.message
    have hid : raw.id = resource.id := hbuilt.id.symm
    have hgrows := (s.settles_recordFailure raw.id (checkResources_error hcheck)).toGrows.trans
      ((s.recordFailure raw.id e).grows_register hstand.wellMade hstand.members)
    refine ⟨hstand, hgrows, knows_placeholder _ raw _, fun pending hs => ?_⟩
    refine hs.insert (fun p hp hne => ?_) (.inr (knows_placeholder s raw _))
    -- the only entry with the id of the resource is now the stand-in
    rcases List.mem_cons.mp hp with rfl | hp
    · exact absurd hid.symm hne
    · exact hp

omit behaves in
/-- After all resources have been checked, none of them is pending any more. -/
theorem ensures_checkResources {resources : List EditorNode} {built : List Node}
    (hbuilt : List.Forall₂ Node.BuiltFrom resources built) (s : Session) :
    Ensures ((resources.zip built).mapM fun (raw, r) => checkResource raw r) s
      (fun nodes t => List.Forall₂ Node.BuiltFrom resources nodes ∧ s.Grows t ∧
        (∀ node ∈ nodes, t.Knows node) ∧
        ∀ pending, s.registry.Closed (pendingOf built ++ pending) → t.registry.Closed pending)
      s.Aborts := by
  have hlength := hbuilt.length_eq
  have hfst : (resources.zip built).map Prod.fst = resources :=
    List.map_fst_zip (Nat.le_of_eq hlength)
  have hsnd : (resources.zip built).map Prod.snd = built :=
    List.map_snd_zip (Nat.le_of_eq hlength.symm)
  -- what is left of the resources is what is pending
  let inv (done : List (EditorNode × Node)) (nodes : List Node) (t : Session) : Prop :=
    List.Forall₂ Node.BuiltFrom (done.map Prod.fst) nodes ∧ s.Grows t ∧
      (∀ node ∈ nodes, t.Knows node) ∧
      ∀ rest pending, resources.zip built = done ++ rest →
        s.registry.Closed (pendingOf built ++ pending) →
        t.registry.Closed (pendingOf (rest.map Prod.snd) ++ pending)
  have start : inv [] [] s := by
    refine ⟨.nil, .refl s, by simp, fun rest pending hrest hs => ?_⟩
    obtain rfl : resources.zip built = rest := hrest
    rwa [hsnd]
  refine (ensures_mapM inv ?_ start).mono (fun nodes t ht => ?_) fun _ _ h => h
  · rintro before ⟨raw, r⟩ after nodes t hsplit ⟨hnodes, hgrows, hknown, hclosed⟩
    have hr : Node.BuiltFrom raw r := List.forall₂_zip hbuilt (by rw [hsplit]; simp)
    refine (ensures_checkResource hr t).mono (fun node u hu => ?_) fun e u hu => hu.after hgrows
    obtain ⟨hnode, hgrows', hknown', hclosed'⟩ := hu
    refine ⟨?_, hgrows.trans hgrows', fun n hn => ?_, fun rest pending hrest hs => ?_⟩
    · rw [List.map_append]
      exact List.rel_append hnodes (.cons hnode .nil)
    · rcases List.mem_append.mp hn with hn | hn
      · exact (hknown n hn).after hgrows'
      · exact List.mem_singleton.mp hn ▸ hknown'
    · exact hclosed' _ (hclosed ((raw, r) :: rest) pending (by simpa using hrest) hs)
  · obtain ⟨hnodes, hgrows, hknown, hclosed⟩ := ht
    refine ⟨hfst ▸ hnodes, hgrows, hknown, fun pending hs => ?_⟩
    exact hclosed [] pending (by simp) hs

theorem ensures_buildNodes (nodes : List EditorNode) (s : Session) :
    Ensures (nodes.mapM (buildNode nested)) s
      (fun built t => List.Forall₂ Node.BuiltFrom nodes built ∧ s.Settles t ∧
        ∀ node ∈ built, t.Knows node)
      s.Aborts := by
  refine ensures_mapM (fun done built t => List.Forall₂ Node.BuiltFrom done built ∧
    s.Settles t ∧ ∀ node ∈ built, t.Knows node) ?_ ⟨.nil, .refl s, by simp⟩
  rintro before raw after built t - ⟨hbuilt, hsettles, hknown⟩
  refine (ensures_buildNode behaves raw t).mono (fun node u hu => ?_) fun e u hu =>
    hu.after hsettles.toGrows
  obtain ⟨hnode, hsettles', hknown'⟩ := hu
  refine ⟨List.rel_append hbuilt (.cons hnode .nil), hsettles.trans hsettles', fun n hn => ?_⟩
  rcases List.mem_append.mp hn with hn | hn
  · exact (hknown n hn).after hsettles'.toGrows
  · exact List.mem_singleton.mp hn ▸ hknown'

omit behaves in
theorem fresh_of_builtFrom {raws : List EditorNode} {nodes : List Node}
    (h : List.Forall₂ Node.BuiltFrom raws nodes) :
    ∀ node ∈ nodes, node.WellMade ∧ node.members = [] := by
  intro node hnode
  obtain ⟨raw, -, hbuilt⟩ := exists_of_mem_right h hnode
  exact ⟨hbuilt.wellMade, hbuilt.members⟩

/-- A level is built or the compile ends; in the end its nodes are registered as they were built. -/
theorem ensures_buildAll (graph : EditorGraph) (s : Session) :
    Ensures (buildAll nested graph) s
      (fun _ t => s.Settles t ∧ t.Holds graph.nodes ∧
        ∀ raw ∈ graph.resources, t.registry.contains raw.id = true)
      s.Aborts := by
  unfold buildAll
  refine (ensures_buildResources behaves graph.resources s).bind fun built t ht => ?_
  obtain ⟨hbuilt, hgrows, hclosed⟩ := ht
  refine ((ensures_checkResources hbuilt t).mono (fun _ _ h => h) fun _ _ h =>
    h.after hgrows).bind fun resources u hu => ?_
  obtain ⟨hresources, hgrows', hknown, hclosed'⟩ := hu
  have hchecked : s.Settles u :=
    ⟨hgrows.trans hgrows', fun pending hs => hclosed' pending (hclosed pending hs)⟩
  refine ((ensures_buildNodes behaves graph.nodes u).mono (fun _ _ h => h) fun _ _ h =>
    h.after hchecked.toGrows).bind fun nodes v hv => ?_
  obtain ⟨hnodes, hsettles, hknown'⟩ := hv
  have hfirst : v.Settles (v.registerAll resources) :=
    settles_registerAll (fresh_of_builtFrom hresources) fun node hn =>
      (hknown node hn).after hsettles.toGrows
  have hsecond : (v.registerAll resources).Settles ((v.registerAll resources).registerAll nodes) :=
    settles_registerAll (fresh_of_builtFrom hnodes) fun node hn =>
      (hknown' node hn).after hfirst.toGrows
  unfold Ensures
  rw [run_registers]
  refine ⟨hchecked.trans (hsettles.trans (hfirst.trans hsecond)), holds_registerAll hnodes, ?_⟩
  intro raw hraw
  obtain ⟨made, -, -, node, hnode, -⟩ := holds_registerAll (s := v) hresources raw hraw
  exact hsecond.registered raw.id (Entries.contains_of_get? hnode)

end Level

end WorkflowCompiler
