import WorkflowCompiler.Proofs.Registry

/-!
# Emission from a closed registry

Emission looks up the nodes in branches, the document of a retriever and the resources of a node.
Where every resource that a registered node names is registered, none of the latter can be missing,
and what else can go wrong concerns the whole graph.
-/
namespace WorkflowCompiler

namespace Registry

/-- All that the emission of a node looks up besides its branches is registered. -/
structure Supplies (r : Registry) (node : Node) : Prop where
  made : node.WellMade
  known : ∀ x ∈ node.resourceIds, r.contains x = true

theorem supplies_of_closed {r : Registry} (s : r.Sound) (c : r.Closed []) {id : String}
    {node : Node} (h : r.get? id = some node) : r.Supplies node :=
  ⟨s.made id node h, (c id node h).resolve_left (by simp)⟩

section Failing

variable {r : Registry} {emit : Node → Emitted} {fork : String} {e : CompileError}

/-- A branch fails at a node that is not registered, or as one of its nodes fails. -/
theorem emitBranch_eq_error {ids : List String} (h : emitBranch r emit fork ids = .error e) :
    ∃ id ∈ ids, (r.get? id = none ∧ e = .nodeNotFound id fork) ∨
      ∃ node, r.get? id = some node ∧ emit node = .error e := by
  induction ids with
  | nil => cases h
  | cons id ids ih =>
    have later : emitBranch r emit fork ids = .error e →
        ∃ x ∈ id :: ids, (r.get? x = none ∧ e = .nodeNotFound x fork) ∨
          ∃ node, r.get? x = some node ∧ emit node = .error e := by
      intro h
      obtain ⟨x, hx, hfails⟩ := ih h
      exact ⟨x, List.mem_cons_of_mem _ hx, hfails⟩
    unfold emitBranch at h
    split at h
    · next hn => exact ⟨id, List.mem_cons_self, .inl ⟨hn, (throw_eq_error.mp h).symm⟩⟩
    · next node hn =>
      split at h
      · exact later h
      · rcases bind_eq_error.mp h with h | ⟨fields, -, h⟩
        · exact ⟨id, List.mem_cons_self, .inr ⟨node, hn, h⟩⟩
        · rcases bind_eq_error.mp h with h | ⟨rest, -, h⟩
          · exact later h
          · simp at h

theorem emitCases_eq_error {b : Branching} (h : emitCases r emit fork b = .error e) :
    ∃ key ∈ b.emittedKeys, emitBranch r emit fork (b.branch key) = .error e := by
  obtain ⟨key, hkey, h⟩ := error_of_mapM h
  rcases bind_eq_error.mp h with h | ⟨items, -, h⟩
  · exact ⟨key, hkey, h⟩
  · simp at h

/-- The arguments of a node fail at the nodes in its branches, or at the document that it
retrieves from. -/
theorem args_eq_error {node : Node} (h : args r emit node = .error e) :
    (∃ id ∈ node.members, (r.get? id = none ∧ e = .nodeNotFound id node.id) ∨
      ∃ m, r.get? id = some m ∧ emit m = .error e) ∨
    ∃ body, node.body = .retriever body ∧ r.get? body.doc = none ∧
      e = .resourceNotFound body.doc node.id := by
  have inBranch : ∀ b key, node.body.branching? = some b →
      emitBranch r emit node.id (b.branch key) = .error e →
      ∃ id ∈ node.members, (r.get? id = none ∧ e = .nodeNotFound id node.id) ∨
        ∃ m, r.get? id = some m ∧ emit m = .error e := by
    intro b key hb h
    obtain ⟨id, hid, hfails⟩ := emitBranch_eq_error h
    exact ⟨id, Node.mem_members_of_branch hb hid, hfails⟩
  unfold args at h
  cases hbody : node.body with
  | ifs cond full b =>
    have hb : node.body.branching? = some b := by rw [hbody]; rfl
    simp only [hbody] at h
    rcases bind_eq_error.mp h with h | ⟨yes, -, h⟩
    · exact .inl (inBranch b _ hb h)
    · rcases bind_eq_error.mp h with h | ⟨no, -, h⟩
      · exact .inl (inBranch b _ hb h)
      · simp at h
  | switch _ _ b | intention _ _ b =>
    have hb : node.body.branching? = some b := by rw [hbody]; rfl
    simp only [hbody] at h
    rcases bind_eq_error.mp h with h | ⟨nodes, -, h⟩
    · obtain ⟨key, -, h⟩ := emitCases_eq_error h
      exact .inl (inBranch b key hb h)
    · simp at h
  | retriever body =>
    simp only [hbody] at h
    unfold retrieverArgs at h
    split at h
    · next hdoc => exact .inr ⟨body, rfl, hdoc, (Except.error.inj h).symm⟩
    · cases h
  | _ =>
    simp only [hbody] at h
    cases h

end Failing

variable {r : Registry} (supplies : ∀ id node, r.get? id = some node → r.Supplies node)

include supplies

theorem args_error {emit : Node → Emitted} {node : Node} {e : CompileError}
    (own : r.Supplies node)
    (inner : ∀ node, r.Supplies node → ∀ e, emit node = .error e → e.isRecoverable = false)
    (h : args r emit node = .error e) : e.isRecoverable = false := by
  rcases args_eq_error h with ⟨id, -, ⟨-, rfl⟩ | ⟨m, hm, he⟩⟩ | ⟨body, hb, hdoc, -⟩
  · rfl
  · exact inner m (supplies id m hm) e he
  · obtain ⟨document, hfound⟩ :=
      Entries.exists_get?_of_contains (own.known _ (own.made.doc body hb))
    cases hdoc.symm.trans hfound

/-- Emission of a registered node fails only for reasons that concern the whole graph. -/
theorem emitWithin_error {backflow : Bool} {depth : Nat} {node : Node} {e : CompileError}
    (own : r.Supplies node) (h : emitWithin r backflow depth node = .error e) :
    e.isRecoverable = false := by
  induction depth generalizing node e with
  | zero =>
    unfold emitWithin at h
    split at h
    · cases h
    · rcases bind_eq_error.mp h with h | ⟨fields, -, h⟩
      · refine args_error supplies own (fun node _ e he => ?_) h
        cases he
        rfl
      · simp at h
  | succ depth ih =>
    unfold emitWithin at h
    split at h
    · cases h
    · rcases bind_eq_error.mp h with h | ⟨fields, -, h⟩
      · exact args_error supplies own (fun node hnode e he => ih hnode he) h
      · simp at h

omit supplies in
/-- Nodes in branches may be missing or nest without end, but no resource is looked up. -/
theorem rootsWithin_error {depth : Nat} {node : Node} {e : CompileError}
    (h : rootsWithin r depth node = .error e) : e.isRecoverable = false := by
  induction depth using Nat.strongRecOn generalizing node e with
  | _ depth ih =>
    unfold rootsWithin at h
    rcases bind_eq_error.mp h with h | ⟨branches, -, h⟩
    · obtain ⟨id, -, h⟩ := error_of_mapM h
      rcases hn : r.get? id with _ | child
      · rw [hn] at h
        obtain rfl := throw_eq_error.mp h
        rfl
      · rw [hn] at h
        cases depth with
        | zero =>
          obtain rfl := throw_eq_error.mp h
          rfl
        | succ depth => exact ih depth (Nat.lt_succ_self depth) h
    · simp at h

omit supplies in
/-- A node names its own resources and those that the nodes in its branches name. -/
theorem rootsWithin_eq_ok {depth : Nat} {node : Node} {ids : List String}
    (h : rootsWithin r depth node = .ok ids) :
    ∃ branches, ids = node.resourceIds ++ branches.flatten ∧
      List.Forall₂ (fun m found => ∃ child n, r.get? m = some child ∧ n < depth ∧
        rootsWithin r n child = .ok found) node.members branches := by
  unfold rootsWithin at h
  obtain ⟨branches, hbranches, h⟩ := bind_eq_ok.mp h
  refine ⟨branches, (pure_eq_ok.mp h).symm, (mapM_eq_ok.mp hbranches).imp fun m found hfound => ?_⟩
  split at hfound
  · cases hfound
  · next child hn =>
    cases depth with
    | zero => cases hfound
    | succ n => exact ⟨child, n, hn, Nat.lt_succ_self n, hfound⟩

omit supplies in
/-- What holds of the resources that good nodes name holds of all resources named in branches, where
the branches of good nodes hold good nodes. -/
theorem rootsWithin_forall (good : Node → Prop) {P : String → Prop}
    (inside : ∀ node, good node → ∀ m ∈ node.members, ∀ child, r.get? m = some child → good child)
    (named : ∀ node, good node → ∀ x ∈ node.resourceIds, P x) {depth : Nat} {node : Node}
    {ids : List String} (own : good node) (h : rootsWithin r depth node = .ok ids) :
    ∀ x ∈ ids, P x := by
  induction depth using Nat.strongRecOn generalizing node ids with
  | _ depth ih =>
    obtain ⟨branches, rfl, hbranches⟩ := rootsWithin_eq_ok h
    intro x hx
    rcases List.mem_append.mp hx with hx | hx
    · exact named node own x hx
    · obtain ⟨found, hfound, hx⟩ := List.mem_flatten.mp hx
      obtain ⟨m, hm, child, n, hn, hlt, hrun⟩ := exists_of_mem_right hbranches hfound
      exact ih n hlt (inside node own m hm child hn) hrun x hx

/-- The resources named by a node and in its branches are registered. -/
theorem rootsWithin_known {depth : Nat} {node : Node} {ids : List String}
    (own : r.Supplies node) (h : rootsWithin r depth node = .ok ids) :
    ∀ x ∈ ids, r.contains x = true :=
  rootsWithin_forall r.Supplies (fun _ _ m _ child hn => supplies m child hn)
    (fun _ own => own.known) own h

theorem collect_error {backflow : Bool} {n : Nat} {id requestedBy : String} {c : Collected}
    {e : CompileError} (known : r.contains id = true)
    (h : collect r backflow n id requestedBy c = .error e) : e.isRecoverable = false := by
  induction n generalizing id requestedBy c e with
  | zero =>
    unfold collect at h
    split at h
    · simp at h
    · obtain ⟨resource, hn⟩ := Entries.exists_get?_of_contains known
      simp only [hn] at h
      rcases bind_eq_error.mp h with h | ⟨dependencies, -, h⟩
      · exact rootsWithin_error h
      · rcases bind_eq_error.mp h with h | ⟨_, h, -⟩
        · obtain rfl := throw_eq_error.mp h
          rfl
        · exact absurd h throw_ne_ok
  | succ n ih =>
    unfold collect at h
    split at h
    · simp at h
    · obtain ⟨resource, hn⟩ := Entries.exists_get?_of_contains known
      have own := supplies id resource hn
      simp only [hn] at h
      rcases bind_eq_error.mp h with h | ⟨dependencies, hdeps, h⟩
      · exact rootsWithin_error h
      · rcases bind_eq_error.mp h with h | ⟨c', -, h⟩
        · obtain ⟨d, dep, hdep, h⟩ := error_of_foldlM h
          exact ih (rootsWithin_known supplies own hdeps dep hdep) h
        · rcases bind_eq_error.mp h with h | ⟨fields, -, h⟩
          · exact emitWithin_error supplies own h
          · simp at h

/-- Resources are collected for a registered node, or the whole graph is at fault. -/
theorem resourcesOf_error {backflow : Bool} {node : Node} {e : CompileError}
    (own : r.Supplies node) (h : resourcesOf r backflow node = .error e) :
    e.isRecoverable = false := by
  unfold resourcesOf at h
  rcases bind_eq_error.mp h with h | ⟨ids, hids, h⟩
  · exact rootsWithin_error h
  · rcases bind_eq_error.mp h with h | ⟨c, -, h⟩
    · obtain ⟨d, id, hid, h⟩ := error_of_foldlM h
      exact collect_error supplies (rootsWithin_known supplies own hids id hid) h
    · simp at h

end Registry

end WorkflowCompiler
