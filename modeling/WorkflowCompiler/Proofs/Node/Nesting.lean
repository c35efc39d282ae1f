import Mathlib.Logic.Relation
import WorkflowCompiler.Proofs.Node.Emitting

/-!
# Nesting of branches

A fork nests the nodes in its branches. In a sound registry this ends: no node nests in itself, and
what recurses into branches meets registered nodes only, whatever bound it is given.
-/
namespace WorkflowCompiler

namespace Registry

/-- Whether a node is in a branch of a registered fork. -/
def Nests (r : Registry) (fork id : String) : Prop :=
  ∃ node, r.get? fork = some node ∧ id ∈ node.members

section Ranked

variable {r : Registry} {rank : String → Nat} (ranked : r.RankedBy rank)

include ranked

theorem RankedBy.wellFounded : WellFounded fun id fork => r.Nests fork id := by
  refine Subrelation.wf (r := InvImage (· < ·) rank) ?_ (InvImage.wf rank Nat.lt_wfRel.wf)
  rintro id fork ⟨node, hn, hm⟩
  exact (ranked fork node hn id hm).2

theorem RankedBy.acyclic (id : String) : ¬ Relation.TransGen r.Nests id id := by
  have falls : ∀ {a b}, Relation.TransGen r.Nests a b → rank b < rank a := by
    intro a b h
    induction h with
    | single h =>
      obtain ⟨node, hn, hm⟩ := h
      exact (ranked _ node hn _ hm).2
    | tail _ h ih =>
      obtain ⟨node, hn, hm⟩ := h
      exact Nat.lt_trans (ranked _ node hn _ hm).2 ih
  exact fun h => Nat.lt_irrefl _ (falls h)

/-- A registered node cannot be emitted only where a document that is retrieved from is missing. -/
theorem RankedBy.emit_error (backflow : Bool) {id : String} {node : Node}
    (hn : r.get? id = some node) : ∀ e, emit r backflow node = .error e →
      ∃ document requestedBy, e = .resourceNotFound document requestedBy := by
  refine ranked.induct (motive := fun _ node => ∀ e, emit r backflow node = .error e →
    ∃ document requestedBy, e = .resourceNotFound document requestedBy) ?_ id node hn
  intro id node hn inside e h
  rw [ranked.emit_eq] at h
  split at h
  · cases h
  · rcases args_eq_error (map_eq_error.mp h) with
      ⟨m, hm, ⟨hmissing, -⟩ | ⟨found, hfound, he⟩⟩ | ⟨body, -, -, rfl⟩
    · obtain ⟨made, hmade, -⟩ := inside m hm
      cases hmade.symm.trans hmissing
    · obtain ⟨made, hmade, -, ih⟩ := inside m hm
      obtain rfl : made = found := Option.some.inj (hmade.symm.trans hfound)
      exact ih e he
    · exact ⟨_, _, rfl⟩

theorem RankedBy.emitBranch_error (backflow : Bool) {id : String} {node : Node}
    (hn : r.get? id = some node) {b : Branching} (hb : node.body.branching? = some b)
    {key : String} {e : CompileError}
    (h : emitBranch r (emit r backflow) node.id (b.branch key) = .error e) :
    ∃ document requestedBy, e = .resourceNotFound document requestedBy := by
  obtain ⟨m, hm, hfails⟩ := emitBranch_eq_error h
  have hmember : m ∈ node.members := Node.mem_members_of_branch hb hm
  obtain ⟨made, hmade⟩ := Entries.exists_get?_of_contains (ranked id node hn m hmember).1
  rcases hfails with ⟨hmissing, -⟩ | ⟨found, hfound, he⟩
  · cases hmade.symm.trans hmissing
  · exact ranked.emit_error backflow hfound e he

/-- Any bound that lets all registered nodes nest in each other is as good as the one in use. -/
theorem RankedBy.emitWithin_eq_emit (backflow : Bool) {id : String} {node : Node}
    (hn : r.get? id = some node) {depth : Nat} (h : r.length ≤ depth) :
    emitWithin r backflow depth node = emit r backflow node := by
  have hle := r.below_le rank (rank id)
  exact ranked.emitWithin_eq backflow hn _ _ (by omega) (by omega)

theorem RankedBy.rootsWithin_eq {id : String} {node : Node} (hn : r.get? id = some node) :
    ∀ depth depth', r.below rank (rank id) ≤ depth → r.below rank (rank id) ≤ depth' →
      rootsWithin r depth node = rootsWithin r depth' node := by
  refine ranked.induct (motive := fun id node => ∀ depth depth', r.below rank (rank id) ≤ depth →
    r.below rank (rank id) ≤ depth' → rootsWithin r depth node = rootsWithin r depth' node) ?_
    id node hn
  intro id node hn inside depth depth' enough enough'
  unfold rootsWithin
  congr 1
  refine mapM_congr fun m hm => ?_
  obtain ⟨made, hmade, hlt, ih⟩ := inside m hm
  obtain ⟨d, rfl⟩ : ∃ d, depth = d + 1 := ⟨depth - 1, by omega⟩
  obtain ⟨d', rfl⟩ : ∃ d', depth' = d' + 1 := ⟨depth' - 1, by omega⟩
  simp only [hmade]
  exact ih d d' (by omega) (by omega)

theorem RankedBy.rootsWithin_eq_roots {id : String} {node : Node} (hn : r.get? id = some node)
    {depth : Nat} (h : r.length ≤ depth) : rootsWithin r depth node = roots r node := by
  have hle := r.below_le rank (rank id)
  exact ranked.rootsWithin_eq hn _ _ (by omega) (by omega)

/-- The resources named by a node and, through its branches, by the nodes in them. -/
theorem RankedBy.roots_eq (node : Node) :
    roots r node = (do
      let branches ← node.members.mapM fun id =>
        match r.get? id with
        | none => throw (.nodeNotFound id node.id)
        | some child => roots r child
      return node.resourceIds ++ branches.flatten) := by
  conv => lhs; unfold roots rootsWithin
  congr 1
  refine mapM_congr fun m _ => ?_
  rcases hm : r.get? m with _ | child
  · rfl
  · exact ranked.rootsWithin_eq_roots hm (Nat.le_refl _)

end Ranked

end Registry

end WorkflowCompiler
