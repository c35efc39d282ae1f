import WorkflowCompiler.Proofs.Node.Collecting

/-!
# Emission without bounds

Branches hold registered nodes of lower rank, so they nest no deeper than there are registered nodes
of lower rank. The bound on the depth is never met: a registered node is always emitted, and what is
emitted for it embeds what is emitted for the nodes in its branches.
-/
namespace WorkflowCompiler

namespace Registry

theorem countP_lt_of_imp {ids : List String} {p q : String → Bool}
    (imp : ∀ x ∈ ids, p x = true → q x = true) {x : String} (hx : x ∈ ids) (hq : q x = true)
    (hp : p x = false) : ids.countP p < ids.countP q := by
  have hfilter : ids.filter p = (ids.filter q).filter p := by
    rw [List.filter_filter]
    refine List.filter_congr fun y hy => ?_
    cases hpy : p y with
    | false => rfl
    | true => simp [imp y hy hpy]
  rw [List.countP_eq_length_filter, List.countP_eq_length_filter, hfilter]
  apply List.length_filter_lt_length_iff_exists.mpr
  exact ⟨x, List.mem_filter.mpr ⟨hx, hq⟩, by simp [hp]⟩

/-- The number of registered nodes that rank lower. -/
def below (r : Registry) (rank : String → Nat) (n : Nat) : Nat := r.keys.countP fun id => rank id < n

theorem below_le (r : Registry) (rank : String → Nat) (n : Nat) : r.below rank n ≤ r.length := by
  have hkeys : r.keys.length = r.length := List.length_map Prod.fst
  unfold below
  rw [← hkeys]
  exact List.countP_le_length

theorem below_lt {r : Registry} {rank : String → Nat} {m : String} {n : Nat}
    (known : r.contains m = true) (h : rank m < n) : r.below rank (rank m) < r.below rank n := by
  refine countP_lt_of_imp (fun id _ hid => ?_) ((Entries.contains_iff _ _).mp known) ?_ ?_
  · have hlt : rank id < rank m := by simpa using hid
    simp only [decide_eq_true_eq]
    omega
  · simpa using h
  · simp

/-- The number of registered nodes that have not been met. -/
def unvisited (r : Registry) (c : Collected) : Nat := r.keys.countP fun id => !c.visited.contains id

theorem unvisited_le (r : Registry) (c : Collected) : r.unvisited c ≤ r.length := by
  have hkeys : r.keys.length = r.length := List.length_map Prod.fst
  unfold unvisited
  rw [← hkeys]
  exact List.countP_le_length

theorem unvisited_le_of_subset (r : Registry) {c c' : Collected} (h : c.visited ⊆ c'.visited) :
    r.unvisited c' ≤ r.unvisited c := by
  apply List.countP_mono_left
  intro id _ hid
  have hout : id ∉ c'.visited := by simpa using hid
  simpa using fun hin => hout (h hin)

theorem unvisited_visit {r : Registry} {id : String} {c : Collected} (known : r.contains id = true)
    (h : c.visited.contains id = false) :
    r.unvisited { c with visited := id :: c.visited } < r.unvisited c := by
  refine countP_lt_of_imp (fun x _ hx => ?_) ((Entries.contains_iff _ _).mp known) ?_ ?_
  · simp only [List.contains_cons, Bool.not_or, Bool.and_eq_true] at hx
    exact hx.2
  · simpa using h
  · simp

section Arguments

variable {r : Registry} {emit emit' : Node → Emitted} {fork : String}

theorem emitBranch_congr {ids : List String}
    (same : ∀ id ∈ ids, ∀ node, r.get? id = some node → emit node = emit' node) :
    emitBranch r emit fork ids = emitBranch r emit' fork ids := by
  induction ids with
  | nil => rfl
  | cons id ids ih =>
    unfold emitBranch
    rw [ih fun x hx => same x (List.mem_cons_of_mem _ hx)]
    cases hn : r.get? id with
    | none => rfl
    | some node => simp only [same id List.mem_cons_self node hn]

theorem emitBranch_succeeds {ids : List String}
    (inner : ∀ id ∈ ids, ∃ node fields, r.get? id = some node ∧ emit node = .ok fields) :
    ∃ items, emitBranch r emit fork ids = .ok items := by
  induction ids with
  | nil => exact ⟨[], rfl⟩
  | cons id ids ih =>
    obtain ⟨node, fields, hn, hfields⟩ := inner id List.mem_cons_self
    obtain ⟨rest, hrest⟩ := ih fun x hx => inner x (List.mem_cons_of_mem _ hx)
    unfold emitBranch
    simp only [hn]
    split
    · exact ⟨rest, hrest⟩
    · exact ⟨_, bind_eq_ok.mpr ⟨fields, hfields, bind_eq_ok.mpr ⟨rest, hrest, rfl⟩⟩⟩

theorem emitCases_congr {b : Branching}
    (same : ∀ id ∈ b.members, ∀ node, r.get? id = some node → emit node = emit' node) :
    emitCases r emit fork b = emitCases r emit' fork b := by
  unfold emitCases
  congr 1
  funext key
  rw [emitBranch_congr fun id hid => same id (Branching.mem_members_of_branch hid)]

theorem emitCases_succeeds {b : Branching}
    (inner : ∀ id ∈ b.members, ∃ node fields, r.get? id = some node ∧ emit node = .ok fields) :
    ∃ args, emitCases r emit fork b = .ok args := by
  apply mapM_succeeds
  intro key _
  have hbranch : ∃ items, emitBranch r emit fork (b.branch key) = .ok items :=
    emitBranch_succeeds fun id hid => inner id (Branching.mem_members_of_branch hid)
  obtain ⟨items, hitems⟩ := hbranch
  exact ⟨_, bind_eq_ok.mpr ⟨items, hitems, rfl⟩⟩

/-- The arguments of a node depend on what is emitted for its members alone. -/
theorem args_congr {node : Node}
    (same : ∀ id ∈ node.members, ∀ m, r.get? id = some m → emit m = emit' m) :
    args r emit node = args r emit' node := by
  unfold Node.members at same
  unfold args
  cases hb : node.body with
  | ifs cond full b =>
    rw [hb] at same
    have hbranch : ∀ key, emitBranch r emit node.id (b.branch key) =
        emitBranch r emit' node.id (b.branch key) := fun key =>
      emitBranch_congr fun id hid => same id (Branching.mem_members_of_branch hid)
    simp only [hbranch]
  | switch _ _ b | intention _ _ b =>
    rw [hb] at same
    simp only [emitCases_congr same]
  | _ => rfl

theorem args_succeeds {node : Node} (own : r.Supplies node)
    (inner : ∀ id ∈ node.members, ∃ m fields, r.get? id = some m ∧ emit m = .ok fields) :
    ∃ fields, args r emit node = .ok fields := by
  unfold Node.members at inner
  unfold args
  cases hb : node.body with
  | ifs cond full b =>
    rw [hb] at inner
    have hbranch : ∀ key, ∃ items, emitBranch r emit node.id (b.branch key) = .ok items := fun key =>
      emitBranch_succeeds fun id hid => inner id (Branching.mem_members_of_branch hid)
    obtain ⟨yes, hyes⟩ := hbranch "true"
    obtain ⟨no, hno⟩ := hbranch "false"
    exact ⟨_, bind_eq_ok.mpr ⟨yes, hyes, bind_eq_ok.mpr ⟨no, hno, rfl⟩⟩⟩
  | switch _ _ b | intention _ _ b =>
    rw [hb] at inner
    obtain ⟨nodes, hnodes⟩ := emitCases_succeeds inner
    exact ⟨_, bind_eq_ok.mpr ⟨nodes, hnodes, rfl⟩⟩
  | retriever body =>
    obtain ⟨document, hdoc⟩ :=
      Entries.exists_get?_of_contains (own.known _ (own.made.doc body hb))
    unfold retrieverArgs
    simp only [hdoc]
    exact ⟨_, rfl⟩
  | _ => exact ⟨_, rfl⟩

end Arguments

/-- How the nodes in the branches of a node are emitted. -/
def emitInside (r : Registry) (backflow : Bool) : Nat → Node → Emitted
  | 0 => fun node => .error (.cyclicGraph [node.id])
  | depth + 1 => emitWithin r backflow depth

theorem emitWithin_unfold (r : Registry) (backflow : Bool) (depth : Nat) (node : Node) :
    emitWithin r backflow depth node =
      if node.isStructural || node.isFailed then .ok []
      else (args r (emitInside r backflow depth) node).map (frame backflow node) := by
  cases depth <;> rfl

/-- Resources can be collected one after the other when each of them can. -/
theorem foldlM_collect_succeeds {r : Registry} {backflow : Bool} {n : Nat} {requestedBy : String}
    (each : ∀ id c, r.contains id = true → r.unvisited c ≤ n →
      ∃ c', collect r backflow n id requestedBy c = .ok c' ∧ c.visited ⊆ c'.visited)
    {ids : List String} (known : ∀ id ∈ ids, r.contains id = true) {c : Collected}
    (enough : r.unvisited c ≤ n) :
    ∃ c', ids.foldlM (fun c id => collect r backflow n id requestedBy c) c = .ok c' ∧
      c.visited ⊆ c'.visited := by
  induction ids generalizing c with
  | nil => exact ⟨c, rfl, List.Subset.refl _⟩
  | cons id ids ih =>
    obtain ⟨c', hc, hsub⟩ := each id c (known id List.mem_cons_self) enough
    have hle := r.unvisited_le_of_subset hsub
    obtain ⟨c'', hc', hsub'⟩ := ih (fun x hx => known x (List.mem_cons_of_mem _ hx)) (c := c') (by omega)
    refine ⟨c'', ?_, fun x hx => hsub' (hsub hx)⟩
    rw [List.foldlM_cons]
    exact bind_eq_ok.mpr ⟨c', hc, hc'⟩

section Ranked

variable {r : Registry} {rank : String → Nat} (ranked : r.RankedBy rank)

include ranked

/-- What holds of a node if it holds of the nodes in its branches holds of all registered nodes. -/
theorem RankedBy.induct {motive : String → Node → Prop}
    (step : ∀ id node, r.get? id = some node →
      (∀ m ∈ node.members, ∃ made, r.get? m = some made ∧
        r.below rank (rank m) < r.below rank (rank id) ∧ motive m made) → motive id node)
    (id : String) (node : Node) (hn : r.get? id = some node) : motive id node := by
  induction hk : rank id using Nat.strongRecOn generalizing id node with
  | ind k ih =>
    refine step id node hn fun m hm => ?_
    obtain ⟨known, hlt⟩ := ranked id node hn m hm
    obtain ⟨made, hmade⟩ := Entries.exists_get?_of_contains known
    exact ⟨made, hmade, below_lt known hlt, ih _ (hk ▸ hlt) m made hmade rfl⟩

/-- Within the number of nodes that rank lower, the depth makes no difference. -/
theorem RankedBy.emitWithin_eq (backflow : Bool) {id : String} {node : Node} (hn : r.get? id = some node) :
    ∀ depth depth', r.below rank (rank id) ≤ depth → r.below rank (rank id) ≤ depth' →
      emitWithin r backflow depth node = emitWithin r backflow depth' node := by
  refine ranked.induct (motive := fun id node => ∀ depth depth', r.below rank (rank id) ≤ depth →
    r.below rank (rank id) ≤ depth' →
      emitWithin r backflow depth node = emitWithin r backflow depth' node) ?_ id node hn
  intro id node hn inside depth depth' enough enough'
  rw [emitWithin_unfold, emitWithin_unfold]
  congr 2
  refine args_congr fun m hm found hfound => ?_
  obtain ⟨made, hmade, hlt, ih⟩ := inside m hm
  obtain rfl : made = found := Option.some.inj (hmade.symm.trans hfound)
  obtain ⟨d, rfl⟩ : ∃ d, depth = d + 1 := ⟨depth - 1, by omega⟩
  obtain ⟨d', rfl⟩ : ∃ d', depth' = d' + 1 := ⟨depth' - 1, by omega⟩
  exact ih d d' (by omega) (by omega)

theorem RankedBy.emitWithin_succeeds (supplies : ∀ id node, r.get? id = some node → r.Supplies node)
    (backflow : Bool) {id : String} {node : Node} (hn : r.get? id = some node) :
    ∀ depth, r.below rank (rank id) ≤ depth →
      ∃ fields, emitWithin r backflow depth node = .ok fields := by
  refine ranked.induct (motive := fun id node => ∀ depth, r.below rank (rank id) ≤ depth →
    ∃ fields, emitWithin r backflow depth node = .ok fields) ?_ id node hn
  intro id node hn inside depth enough
  rw [emitWithin_unfold]
  split
  · exact ⟨[], rfl⟩
  · have hargs : ∃ fields, args r (emitInside r backflow depth) node = .ok fields := by
      refine args_succeeds (supplies id node hn) fun m hm => ?_
      obtain ⟨made, hmade, hlt, ih⟩ := inside m hm
      obtain ⟨d, rfl⟩ : ∃ d, depth = d + 1 := ⟨depth - 1, by omega⟩
      obtain ⟨fields, hfields⟩ := ih d (by omega)
      exact ⟨made, fields, hmade, hfields⟩
    obtain ⟨fields, hfields⟩ := hargs
    rw [hfields]
    exact ⟨_, rfl⟩

/-- What is emitted for a node embeds what is emitted for the nodes in its branches. -/
theorem RankedBy.emit_eq (backflow : Bool) (node : Node) :
    emit r backflow node =
      if node.isStructural || node.isFailed then .ok []
      else (args r (emit r backflow) node).map (frame backflow node) := by
  unfold emit
  rw [emitWithin_unfold]
  congr 2
  refine args_congr fun m hm made hmade => ?_
  have hle := r.below_le rank (rank m)
  exact ranked.emitWithin_eq backflow hmade _ _ hle (by omega)

theorem RankedBy.emit_succeeds (supplies : ∀ id node, r.get? id = some node → r.Supplies node)
    (backflow : Bool) {id : String} {node : Node} (hn : r.get? id = some node) :
    ∃ fields, emit r backflow node = .ok fields := by
  have hle := r.below_le rank (rank id)
  exact ranked.emitWithin_succeeds supplies backflow hn _ (by omega)

/-- The mapping of a node that is neither structural nor a stand-in frames its arguments. -/
theorem RankedBy.exists_args (supplies : ∀ id node, r.get? id = some node → r.Supplies node)
    (backflow : Bool) {id : String} {node : Node} (hn : r.get? id = some node)
    (visible : node.isStructural = false) (built : node.isFailed = false) :
    ∃ fields, args r (emit r backflow) node = .ok fields ∧
      emit r backflow node = .ok (frame backflow node fields) := by
  obtain ⟨entry, hentry⟩ := ranked.emit_succeeds supplies backflow hn
  have hargs := ranked.emit_eq backflow node
  rw [visible, built, Bool.or_false, if_neg Bool.false_ne_true, hentry] at hargs
  obtain ⟨fields, hfields, rfl⟩ := map_eq_ok.mp hargs.symm
  exact ⟨fields, hfields, hentry⟩

theorem RankedBy.rootsWithin_succeeds {id : String} {node : Node} (hn : r.get? id = some node) :
    ∀ depth, r.below rank (rank id) ≤ depth → ∃ ids, rootsWithin r depth node = .ok ids := by
  refine ranked.induct (motive := fun id node => ∀ depth, r.below rank (rank id) ≤ depth →
    ∃ ids, rootsWithin r depth node = .ok ids) ?_ id node hn
  intro id node hn inside depth enough
  unfold rootsWithin
  refine bind_succeeds (mapM_succeeds fun m hm => ?_) fun branches => ⟨_, rfl⟩
  obtain ⟨made, hmade, hlt, ih⟩ := inside m hm
  obtain ⟨d, rfl⟩ : ∃ d, depth = d + 1 := ⟨depth - 1, by omega⟩
  rw [hmade]
  exact ih d (by omega)

theorem RankedBy.roots_succeeds {id : String} {node : Node} (hn : r.get? id = some node) :
    ∃ ids, roots r node = .ok ids := by
  have hle := r.below_le rank (rank id)
  exact ranked.rootsWithin_succeeds hn _ (by omega)

variable (supplies : ∀ id node, r.get? id = some node → r.Supplies node)

include supplies

/-- A registered resource is collected when the bound leaves room for all that have not been
visited. -/
theorem RankedBy.collect_succeeds (backflow : Bool) {n : Nat} {id requestedBy : String}
    {c : Collected} (known : r.contains id = true) (enough : r.unvisited c ≤ n) :
    ∃ c', collect r backflow n id requestedBy c = .ok c' ∧ c.visited ⊆ c'.visited := by
  induction n generalizing id requestedBy c with
  | zero =>
    by_cases hvisited : c.visited.contains id = true
    · unfold collect
      rw [if_pos hvisited]
      exact ⟨c, rfl, List.Subset.refl _⟩
    · have hlt := unvisited_visit known (by simpa using hvisited)
      omega
  | succ n ih =>
    unfold collect
    by_cases hvisited : c.visited.contains id = true
    · rw [if_pos hvisited]
      exact ⟨c, rfl, List.Subset.refl _⟩
    · have hlt := unvisited_visit known (by simpa using hvisited)
      obtain ⟨resource, hn⟩ := Entries.exists_get?_of_contains known
      obtain ⟨dependencies, hdeps⟩ := ranked.roots_succeeds hn
      obtain ⟨c', hc, hsub⟩ := foldlM_collect_succeeds (fun x d hx hd => ih hx hd)
        (rootsWithin_known supplies (supplies id resource hn) hdeps)
        (c := { c with visited := id :: c.visited }) (by omega)
      obtain ⟨fields, hfields⟩ := ranked.emit_succeeds supplies backflow hn
      rw [if_neg hvisited]
      simp only [hn]
      refine ⟨{ c' with resolved := c'.resolved ++ [(id, fields)] }, ?_, fun x hx => ?_⟩
      · refine bind_eq_ok.mpr ⟨dependencies, hdeps, bind_eq_ok.mpr ⟨c', hc, ?_⟩⟩
        exact bind_eq_ok.mpr ⟨fields, hfields, rfl⟩
      · exact hsub (List.mem_cons_of_mem _ hx)

theorem RankedBy.resourcesOf_succeeds (backflow : Bool) {id : String} {node : Node}
    (hn : r.get? id = some node) : ∃ resources, resourcesOf r backflow node = .ok resources := by
  obtain ⟨ids, hids⟩ := ranked.roots_succeeds hn
  obtain ⟨c, hc, -⟩ := foldlM_collect_succeeds
    (fun x d hx hd => ranked.collect_succeeds supplies backflow hx hd)
    (rootsWithin_known supplies (supplies id node hn) hids) (r.unvisited_le {})
  unfold resourcesOf
  exact ⟨_, bind_eq_ok.mpr ⟨ids, hids, bind_eq_ok.mpr ⟨c, hc, rfl⟩⟩⟩

end Ranked

end Registry

end WorkflowCompiler
