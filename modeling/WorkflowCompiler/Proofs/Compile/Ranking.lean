import WorkflowCompiler.Proofs.Compile.Folding
import WorkflowCompiler.Proofs.Session

/-!
# Ranks while blocks are folded

A fold makes nodes behind a fork members of its branches, so the nodes of a level rank the higher
the earlier they come in its order, and below all nodes of other levels.
-/
namespace WorkflowCompiler

open Step

namespace Block

theorem same_assigned (f : Folding) (start stop : String) :
    f.registry.Same (assigned f start stop) :=
  Registry.same_modify fun node _ => node.bare_updateBranching fun _ => rfl

theorem mem_members_updateBranching {node : Node} {bodies : Entries (List String)} {id : String}
    (h : id ∈ (node.updateBranching fun b => b.assign bodies).members) :
    (∃ body ∈ bodies.values, id ∈ body) ∨ id ∈ node.members := by
  unfold Node.updateBranching at h
  split at h
  · next b hb =>
    have hmem : id ∈ (b.assign bodies).members := by
      simpa [Node.members, hb] using h
    refine (Branching.mem_members_assign hmem).imp_right fun hold => ?_
    simpa [Node.members, hb] using hold
  · exact .inr h

/-- New members of a branch come from the region that is folded. -/
theorem mem_members_assigned {f : Folding} {start stop id : String} {node : Node}
    (h : (assigned f start stop).get? id = some node) :
    ∃ old, f.registry.get? id = some old ∧ ∀ m ∈ node.members,
      m ∈ old.members ∨ id = start ∧ m ∈ f.wiring.between start stop := by
  unfold assigned at h
  obtain ⟨he, old, hold, rfl⟩ | ⟨-, h⟩ := Entries.get?_modify_cases h
  · refine ⟨old, he ▸ hold, fun m hm => ?_⟩
    rcases mem_members_updateBranching hm with ⟨body, hbody, hin⟩ | hin
    · exact .inr ⟨he, Wiring.mem_between_of_mem_group hbody hin⟩
    · exact .inl hin
  · exact ⟨node, h, fun m hm => .inl hm⟩

/-- The rank of a node while the level with this order is folded. -/
def foldRank (order : List String) (rank : String → Nat) (id : String) : Nat :=
  if id ∈ order then order.length - order.idxOf id else order.length + 1 + rank id

theorem foldRank_lt_of_forward {order : List String} (rank : String → Nat) {a b : String}
    (ha : a ∈ order) (hb : b ∈ order) (h : order.idxOf a < order.idxOf b) :
    foldRank order rank b < foldRank order rank a := by
  have hlt := List.idxOf_lt_length_of_mem hb
  unfold foldRank
  rw [if_pos ha, if_pos hb]
  omega

/-- Nodes of other levels keep their ranks, and nodes of this level rank below them. -/
theorem rankedBy_foldRank {r : Registry} {order : List String} {rank : String → Nat}
    (ranked : r.RankedBy rank)
    (fresh : ∀ id ∈ order, ∀ node, r.get? id = some node → node.members = []) :
    r.RankedBy (foldRank order rank) := by
  intro id node hn m hm
  by_cases hid : id ∈ order
  · simp [fresh id hid node hn] at hm
  · obtain ⟨hc, hlt⟩ := ranked id node hn m hm
    refine ⟨hc, ?_⟩
    unfold foldRank
    rw [if_neg hid]
    split <;> omega

/-- The registry while a level is folded, compared to what it was before. -/
structure KeepsRanks (order : List String) (r r' : Registry) : Prop where
  same : r.Same r'
  ranked : ∀ rank, r.RankedBy rank → r'.RankedBy (foldRank order rank)

/-- Folding keeps all nodes what they are and ranks them. -/
theorem ensures_foldPairs {w : Wiring} {order : List String} (isOrder : w.IsOrder order)
    {pairs : List (String × String)} (foldable : Foldable order.idxOf pairs w) {r : Registry}
    (present : ∀ id ∈ w.nodes, r.contains id = true)
    (fresh : ∀ id ∈ w.nodes, ∀ node, r.get? id = some node → node.members = []) :
    Ensures (pairs.forM fun p => foldOne p.1 p.2) ⟨r, w⟩
      (fun _ g => KeepsRanks order r g.registry)
      fun e g => KeepsRanks order r g.registry ∧ e.isRecoverable = false := by
  let motive (_ : List (String × String)) (g : Folding) : Prop :=
    KeepsRanks order r g.registry ∧ g.wiring.nodes ⊆ w.nodes
  have start : motive [] ⟨r, w⟩ := by
    refine ⟨⟨.refl r, fun rank ranked => ?_⟩, fun _ h => h⟩
    exact rankedBy_foldRank ranked fun id hid => fresh id (isOrder.perm.mem_iff.mp hid)
  have run := Foldable.run (f := ⟨r, w⟩) foldable (motive := motive) start ?_
  · refine run.mono (fun _ g hg => hg.2.1) fun e g hg => ?_
    obtain ⟨_, p, -, hm, rfl⟩ := hg
    exact ⟨hm.1, rfl⟩
  · rintro done p rest g g' - hg ⟨⟨same, ranked⟩, sub⟩ hfold hreg
    have folds := hg.valid.folds hfold
    obtain ⟨hstart, -, -⟩ := hg.ends p List.mem_cons_self
    refine ⟨⟨hreg ▸ same.trans (same_assigned g p.1 p.2), fun rank hrank id node hn m hm => ?_⟩,
      fun id hid => sub (folds.mem_nodes.mp hid).1⟩
    rw [hreg] at hn
    obtain ⟨old, hold, hmembers⟩ := mem_members_assigned hn
    rw [hreg, (same_assigned g p.1 p.2).contains]
    rcases hmembers m hm with hm | ⟨rfl, hm⟩
    · exact ranked rank hrank id old hold m hm
    · have hnode := sub (hg.valid.mem_of_mem_between hm)
      have hposition := (Wiring.position_of_mem_between hg.forward hm).1
      refine ⟨(same.contains m).trans (present m hnode), ?_⟩
      exact foldRank_lt_of_forward rank (isOrder.perm.mem_iff.mpr (sub hstart))
        (isOrder.perm.mem_iff.mpr hnode) hposition

theorem ensures_foldAll {w : Wiring} (v : w.Valid) {order : List String}
    (isOrder : w.IsOrder order) {r : Registry} {blocks : List Block}
    (matched : matchAll r order = .ok blocks)
    (present : ∀ id ∈ w.nodes, r.contains id = true)
    (fresh : ∀ id ∈ w.nodes, ∀ node, r.get? id = some node → node.members = []) :
    Ensures (foldAll blocks) ⟨r, w⟩ (fun _ g => KeepsRanks order r g.registry)
      fun e g => KeepsRanks order r g.registry ∧ e.isRecoverable = false := by
  rw [foldAll_eq]
  exact ensures_foldPairs isOrder (foldable_of_matchAll v isOrder matched) present fresh

end Block

end WorkflowCompiler
