import WorkflowCompiler.Proofs.Session
import WorkflowCompiler.Proofs.Wiring.Wired

/-!
# Scanning connections

A scan binds inputs, notes which connection leaves each port of a fork, and wires the level. What a
link knows depends only on its source as it was built.
-/
namespace WorkflowCompiler

open Step

namespace Session

/-- The same session except for connections noted at its nodes. -/
structure Reconnects (s t : Session) : Prop where
  collaborators : t.collaborators = s.collaborators
  options : t.options = s.options
  nesting : t.nesting = s.nesting
  failures : t.failures = s.failures
  same : s.registry.Same t.registry
  outline : ∀ id,
    (t.registry.get? id).map Node.outline = (s.registry.get? id).map Node.outline

theorem Reconnects.refl (s : Session) : s.Reconnects s :=
  ⟨rfl, rfl, rfl, rfl, .refl _, fun _ => rfl⟩

theorem Reconnects.trans {s t u : Session} (h : s.Reconnects t) (h' : t.Reconnects u) :
    s.Reconnects u where
  collaborators := h'.collaborators.trans h.collaborators
  options := h'.options.trans h.options
  nesting := h'.nesting.trans h.nesting
  failures := h'.failures.trans h.failures
  same := h.same.trans h'.same
  outline := fun id => (h'.outline id).trans (h.outline id)

theorem reconnects_modifyNode {s : Session} {id : String} {f : Node → Node}
    (h : ∀ node, s.node? id = some node →
      (f node).bare = node.bare ∧ (f node).outline = node.outline) :
    s.Reconnects (s.modifyNode id f) where
  collaborators := rfl
  options := rfl
  nesting := rfl
  failures := rfl
  same := Registry.same_modify fun node hn => (h node hn).1
  outline := by
    intro other
    show (Entries.get? (Entries.modify s.registry id f) other).map Node.outline = _
    rw [Entries.get?_modify]
    split
    · next he =>
      subst he
      rcases hn : s.registry.get? other with _ | node
      · rfl
      · simp [(h node hn).2]
    · rfl

theorem Reconnects.outline_of_get? {s t : Session} (h : s.Reconnects t) {id : String}
    {node : Node} (hn : t.registry.get? id = some node) :
    ∃ old, s.registry.get? id = some old ∧ old.bare = node.bare ∧ old.outline = node.outline := by
  obtain ⟨old, hold, hbare⟩ := h.same.exists_of_get? hn
  have hmap := h.outline id
  rw [hn, hold] at hmap
  exact ⟨old, hold, hbare, (Option.some.inj hmap).symm⟩

theorem Reconnects.exists_get? {s t : Session} (h : s.Reconnects t) {id : String} {old : Node}
    (hn : s.registry.get? id = some old) :
    ∃ node, t.registry.get? id = some node ∧ old.bare = node.bare ∧ old.outline = node.outline := by
  obtain ⟨node, hnode, -⟩ := h.same.exists_get? hn
  obtain ⟨old', hold, hkeeps⟩ := h.outline_of_get? hnode
  obtain rfl : old = old' := Option.some.inj (hn.symm.trans hold)
  exact ⟨node, hnode, hkeeps⟩

theorem Reconnects.settles {s t : Session} (h : s.Reconnects t) : s.Settles t := by
  refine settles_of_same h.collaborators h.options h.nesting h.failures h.same ?_
  rintro ⟨rank, hrank⟩
  refine ⟨rank, fun id node hn m hm => ?_⟩
  obtain ⟨old, hold, -, houtline⟩ := h.outline_of_get? hn
  have hmembers : old.members = node.members := congrArg Prod.fst houtline
  rw [h.same.contains]
  exact hrank id old hold m (hmembers ▸ hm)

/-- Whether a connection that leaves a fork leaves it by one of its ports. -/
def Leaves (s : Session) (edge : EditorEdge) : Prop :=
  ∀ node, s.node? edge.source = some node → node.body.branching?.isSome = true →
    Branching.portOf edge ∈ node.ports

theorem Reconnects.leaves {s t : Session} (h : s.Reconnects t) {edge : EditorEdge}
    (ht : t.Leaves edge) : s.Leaves edge := by
  intro old hold hfork
  obtain ⟨node, hnode, hbare, houtline⟩ := h.exists_get? hold
  have hports : old.ports = node.ports := congrArg Prod.snd houtline
  have hcases := congrArg Option.isSome (Node.cases_of_bare hbare)
  simp only [Option.isSome_map] at hcases
  rw [hports]
  exact ht node hnode (hcases ▸ hfork)

end Session

namespace Level

open Session

/-- What is known of a link that leaves a node. -/
def linkData (source : Node) (edge : EditorEdge) : LinkData where
  key := ((source.body.branching?.bind fun b => b.keyOf? (Branching.portOf edge))).getD ""
  formatter := edge.formatter.orElse fun _ => if source.isFork then none else edge.label
  targetHandle := edge.targetHandle

theorem data_of_leave {source made : Node} {edge : EditorEdge} {data : LinkData}
    (h : leave source edge = .ok (made, data)) : data = linkData source edge := by
  unfold leave at h
  unfold linkData
  dsimp only at h
  split at h
  · next hb =>
    obtain ⟨-, rfl⟩ := Prod.mk.inj (pure_eq_ok.mp h)
    rw [hb]
    rfl
  · next b hb =>
    obtain ⟨c, hc, h⟩ := bind_eq_ok.mp h
    obtain ⟨-, rfl⟩ := Prod.mk.inj (pure_eq_ok.mp h)
    obtain ⟨-, rfl⟩ := Branching.connect_eq_ok hc
    rw [hb]
    rfl

theorem linkData_of_bare {a b : Node} (h : a.bare = b.bare) (edge : EditorEdge) :
    linkData a edge = linkData b edge := by
  have hkey : ∀ node : Node,
      (node.body.branching?.bind fun b => b.keyOf? (Branching.portOf edge)) =
        (node.body.branching?.map Branching.cases).bind fun cases =>
          (cases.find? fun c => c.port = Branching.portOf edge).map ForkCase.key := by
    intro node
    cases node.body.branching? <;> rfl
  unfold linkData
  rw [hkey a, hkey b, Node.cases_of_bare h, Node.isFork_of_bare h]

/-- The link that a connection becomes. -/
def arrow (r : Registry) (edge : EditorEdge) : Arrow where
  source := edge.source
  target := edge.target
  data :=
    match r.get? edge.source with
    | none => { targetHandle := edge.targetHandle }
    | some source => linkData source edge

theorem arrow_of_same {r r' : Registry} (h : r.Same r') (edge : EditorEdge) :
    arrow r' edge = arrow r edge := by
  unfold arrow
  rcases hn : r'.get? edge.source with _ | node
  · have hnone : r.get? edge.source = none := by
      have hmap := h edge.source
      rw [hn] at hmap
      exact Option.map_eq_none_iff.mp hmap.symm
    rw [hnone]
  · obtain ⟨old, hold, hb⟩ := h.exists_of_get? hn
    rw [hold]
    simp only [linkData_of_bare hb]

theorem checkEnds_eq_ok {ids : List String} {edge : EditorEdge} :
    checkEnds ids edge = .ok () ↔ edge.source ∈ ids ∧ edge.target ∈ ids := by
  unfold checkEnds
  by_cases hs : edge.source ∈ ids <;> by_cases ht : edge.target ∈ ids <;> simp [hs, ht]

theorem checkEnds_error {ids : List String} {edge : EditorEdge} {e : CompileError}
    (h : checkEnds ids edge = .error e) : e.isRecoverable = false := by
  unfold checkEnds at h
  split at h
  · cases h
    rfl
  · split at h
    · cases h
      rfl
    · cases h

theorem run_connect (ids : List String) (w : Wiring) (edge : EditorEdge) (s : Session) :
    connect ids w edge s =
      match checkEnds ids edge with
      | .error e => (.error e, s)
      | .ok () =>
        let bind (node : Node) : Node := node.bindInput edge.targetHandle edge.source
        match s.node? edge.source with
        | none =>
          (.ok (w.addLink edge.source edge.target { targetHandle := edge.targetHandle }),
            s.modifyNode edge.target bind)
        | some source =>
          match leave source edge with
          | .error e => (.error e, s)
          | .ok (made, data) =>
            (.ok (w.addLink edge.source edge.target data),
              (s.modifyNode edge.source fun _ => made).modifyNode edge.target bind) := by
  unfold connect
  simp only [run_bind, run_ofSession, run_get]
  rcases checkEnds ids edge with e | _
  · rfl
  · dsimp only
    rcases s.node? edge.source with _ | source
    · rfl
    · simp only [run_bind, run_ofSession]
      rcases leave source edge with e | ⟨made, data⟩ <;> rfl

/-- A scanned connection joins nodes of the level and adds its link. -/
theorem ensures_connect (ids : List String) (w : Wiring) (edge : EditorEdge) (s : Session) :
    Ensures (connect ids w edge) s
      (fun w' t => s.Reconnects t ∧ (edge.source ∈ ids ∧ edge.target ∈ ids) ∧ s.Leaves edge ∧
        w' = w.addLink edge.source edge.target (arrow s.registry edge).data)
      fun e t => s.Reconnects t ∧ e.isRecoverable = false := by
  unfold Ensures
  rw [run_connect]
  rcases hends : checkEnds ids edge with e | _
  · exact ⟨.refl s, checkEnds_error hends⟩
  · have hmem := checkEnds_eq_ok.mp hends
    have hbind : ∀ t : Session, t.Reconnects (t.modifyNode edge.target fun node =>
        node.bindInput edge.targetHandle edge.source) := fun t =>
      reconnects_modifyNode fun node _ => ⟨node.bare_bindInput _ _, node.outline_bindInput _ _⟩
    dsimp only
    rcases hn : s.node? edge.source with _ | source
    · have hdata : (arrow s.registry edge).data = { targetHandle := edge.targetHandle } := by
        unfold arrow
        rw [show s.registry.get? edge.source = none from hn]
      have hleaves : s.Leaves edge := by
        intro node hnode
        cases hn.symm.trans hnode
      rw [hdata]
      exact ⟨hbind s, hmem, hleaves, rfl⟩
    · have hdata : (arrow s.registry edge).data = linkData source edge := by
        unfold arrow
        rw [show s.registry.get? edge.source = some source from hn]
      dsimp only
      rcases hleave : leave source edge with e | ⟨made, data⟩
      · exact ⟨.refl s, leave_error hleave⟩
      · have hkeeps := leave_keeps hleave
        have hleft : s.Reconnects (s.modifyNode edge.source fun _ => made) := by
          refine reconnects_modifyNode fun node hnode => ?_
          obtain rfl : source = node := Option.some.inj (hn.symm.trans hnode)
          exact hkeeps
        have hleaves : s.Leaves edge := by
          intro node hnode hfork
          obtain rfl : source = node := Option.some.inj (hn.symm.trans hnode)
          exact mem_ports_of_leave hleave hfork
        rw [hdata, ← data_of_leave hleave]
        exact ⟨hleft.trans (hbind _), hmem, hleaves, rfl⟩

theorem ensures_connectEdges (ids : List String) (edges : List EditorEdge) (w : Wiring)
    (s : Session) :
    Ensures (edges.foldlM (connect ids) w) s
      (fun w' t => s.Reconnects t ∧ (∀ edge ∈ edges, edge.source ∈ ids ∧ edge.target ∈ ids) ∧
        (∀ edge ∈ edges, s.Leaves edge) ∧ w' = (edges.map (arrow s.registry)).foldl
          (fun w a => w.addLink a.source a.target a.data) w)
      fun e t => s.Reconnects t ∧ e.isRecoverable = false := by
  induction edges generalizing w s with
  | nil => exact ensures_pure ⟨.refl s, by simp, by simp, rfl⟩
  | cons edge edges ih =>
    rw [List.foldlM_cons]
    refine (ensures_connect ids w edge s).bind fun w' t ht => ?_
    obtain ⟨hre, hends, hleaves, rfl⟩ := ht
    refine (ih _ t).mono (fun w' u hu => ?_) fun e u hu => ⟨hre.trans hu.1, hu.2⟩
    obtain ⟨hre', hends', hleaves', rfl⟩ := hu
    refine ⟨hre.trans hre', ?_, ?_, ?_⟩
    · exact List.forall_mem_cons.mpr ⟨hends, hends'⟩
    · exact List.forall_mem_cons.mpr ⟨hleaves, fun e he => hre.leaves (hleaves' e he)⟩
    · rw [funext (arrow_of_same hre.same)]
      rfl

/-- The wiring of a level, with what its links know from the registered nodes. -/
def wiring (r : Registry) (graph : EditorGraph) : Wiring :=
  Wiring.wired (graph.nodes.map EditorNode.id) (graph.edges.map (arrow r))

theorem valid_wiring (r : Registry) (graph : EditorGraph) : (wiring r graph).Valid :=
  (Wiring.built_wired (graph.nodes.map EditorNode.id) (graph.edges.map (arrow r))).valid

/-- What a scan that succeeds has found: connections join nodes of the level and leave forks by
their ports. -/
structure Scanned (graph : EditorGraph) (s : Session) : Prop where
  ends : ∀ edge ∈ graph.edges, edge.source ∈ graph.nodes.map EditorNode.id ∧
    edge.target ∈ graph.nodes.map EditorNode.id
  leaves : ∀ edge ∈ graph.edges, s.Leaves edge

/-- A scan ends with the wiring of the level. -/
theorem ensures_connectAll (graph : EditorGraph) (s : Session) :
    Ensures (connectAll graph) s
      (fun w t => s.Reconnects t ∧ w = wiring s.registry graph ∧ Scanned graph s)
      fun e t => s.Reconnects t ∧ e.isRecoverable = false :=
  (ensures_connectEdges _ graph.edges _ s).mono
    (fun _ _ h => ⟨h.1, h.2.2.2, h.2.1, h.2.2.1⟩) fun _ _ h => h

theorem ends_of_edges {r : Registry} {graph : EditorGraph}
    (h : ∀ edge ∈ graph.edges, edge.source ∈ graph.nodes.map EditorNode.id ∧
      edge.target ∈ graph.nodes.map EditorNode.id) :
    ∀ a ∈ graph.edges.map (arrow r), a.source ∈ graph.nodes.map EditorNode.id ∧
      a.target ∈ graph.nodes.map EditorNode.id := by
  intro a ha
  obtain ⟨edge, hedge, rfl⟩ := List.mem_map.mp ha
  exact h edge hedge

end Level

end WorkflowCompiler
