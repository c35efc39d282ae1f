import WorkflowCompiler.Proofs.Compile.Brackets
import WorkflowCompiler.Proofs.Steps
import WorkflowCompiler.Proofs.Wiring.Regions

/-!
# Folding matched blocks

Blocks are folded in the order of their ends. What a fold removes lies between the ends of its
block in the order of the nodes, where no later block has an end, so the ends of all later blocks
stay in the wiring.
-/
namespace WorkflowCompiler

namespace Block

theorem run_foldOne (start stop : String) (f : Folding) :
    foldOne start stop f =
      match f.wiring.regionsByKey start stop with
      | .error e => (.error e, f)
      | .ok none => (.error (.unmatchedAggregator stop), f)
      | .ok (some bodies) =>
        let registry := f.registry.modify start fun node =>
          node.updateBranching fun b => b.assign bodies
        match f.wiring.compress start stop with
        | .error e => (.error e, ⟨registry, f.wiring⟩)
        | .ok wiring => (.ok (), ⟨registry, wiring⟩) := by
  unfold foldOne
  simp only [Step.run_bind, Step.run_get, Step.run_lift]
  rcases f.wiring.regionsByKey start stop with e | none | bodies
  · rfl
  · rfl
  · simp only [Step.run_bind, Step.run_get, Step.run_lift, Step.run_modify]
    rcases f.wiring.compress start stop with e | wiring <;> rfl

/-- The registry in which the region between two nodes has become branches of the first. -/
def assigned (f : Folding) (start stop : String) : Registry :=
  f.registry.modify start fun node =>
    node.updateBranching fun b => b.assign (Wiring.group stop (f.wiring.paths start stop))

/-- Where both ends are present, a fold fails at most because no path joins them. -/
theorem foldOne_of_mem {f : Folding} {start stop : String} (hs : start ∈ f.wiring.nodes)
    (ht : stop ∈ f.wiring.nodes) :
    Step.Ensures (foldOne start stop) f
      (fun _ f' => f.wiring.compress start stop = .ok f'.wiring ∧
        f'.registry = assigned f start stop)
      fun e f' => f' = f ∧ e = .unmatchedAggregator stop := by
  unfold Step.Ensures
  rw [run_foldOne, Wiring.regionsByKey_eq hs ht, Wiring.compress_eq hs ht]
  by_cases hp : f.wiring.paths start stop = []
  · rw [if_pos hp, if_pos hp]
    exact ⟨rfl, rfl⟩
  · rw [if_neg hp, if_neg hp]
    exact ⟨rfl, rfl⟩

/-- Where a region can be folded, it becomes branches of its first node. -/
theorem foldOne_of_compress {f : Folding} {start stop : String} {w : Wiring}
    (h : f.wiring.compress start stop = .ok w) :
    foldOne start stop f = (.ok (), ⟨assigned f start stop, w⟩) := by
  obtain ⟨hs, ht⟩ := Wiring.mem_of_compress h
  rw [run_foldOne, Wiring.regionsByKey_eq hs ht, if_neg (Wiring.eq_of_compress h).1, h]
  rfl

/-- A wiring in which links lead forward and all ends of these nested pairs are present. -/
structure Foldable (position : String → Nat) (pairs : List (String × String)) (w : Wiring) :
    Prop where
  valid : w.Valid
  forward : ∀ a b, w.Joined a b → position a < position b
  ends : ∀ p ∈ pairs, p.1 ∈ w.nodes ∧ p.2 ∈ w.nodes ∧ position p.1 < position p.2
  nested : pairs.Pairwise (Nested position)

theorem Foldable.of_append {position : String → Nat} {done pairs : List (String × String)}
    {w : Wiring} (h : Foldable position pairs w) (first : done <+: pairs) :
    Foldable position done w :=
  ⟨h.valid, h.forward, fun p hp => h.ends p (first.subset hp), h.nested.sublist first.sublist⟩

/-- Folding the first pair removes no end of a later one. -/
theorem Foldable.next {position : String → Nat} {p : String × String}
    {pairs : List (String × String)} {w w' : Wiring} (h : Foldable position (p :: pairs) w)
    (fold : w.compress p.1 p.2 = .ok w') : Foldable position pairs w' := by
  have folds := h.valid.folds fold
  obtain ⟨-, -, hp⟩ := h.ends p List.mem_cons_self
  obtain ⟨hnested, nested⟩ := List.pairwise_cons.mp h.nested
  refine ⟨folds.valid, fun a b hab => ?_, fun q hq => ?_, nested⟩
  · rcases folds.joined hab with hold | ⟨rfl, hnew⟩
    · exact h.forward a b hold
    · exact hp.trans (h.forward p.2 b hnew)
  · obtain ⟨hlast, hfirst⟩ := hnested q hq
    obtain ⟨hq1, hq2, hq⟩ := h.ends q (List.mem_cons_of_mem _ hq)
    have stays : ∀ id ∈ w.nodes, (position id < position p.1 ∨ position p.2 < position id) →
        id ∈ w'.nodes := by
      intro id hid hout
      refine folds.mem_nodes.mpr ⟨hid, ?_, fun hin => ?_⟩
      · rintro rfl
        omega
      · have := Wiring.position_of_mem_between h.forward hin
        omega
    exact ⟨stays q.1 hq1 hfirst, stays q.2 hq2 (.inr hlast), hq⟩

/-- What every fold of a pair hands on holds after all of them. A fold of a pair fails only where
no path joins it. -/
theorem Foldable.run {position : String → Nat} {pairs : List (String × String)} {f : Folding}
    (h : Foldable position pairs f.wiring) {motive : List (String × String) → Folding → Prop}
    (start : motive [] f)
    (step : ∀ done p rest g g', pairs = done ++ p :: rest →
      Foldable position (p :: rest) g.wiring → motive done g →
      g.wiring.compress p.1 p.2 = .ok g'.wiring → g'.registry = assigned g p.1 p.2 →
      motive (done ++ [p]) g') :
    Step.Ensures (pairs.forM fun p => foldOne p.1 p.2) f
      (fun _ g => Foldable position [] g.wiring ∧ motive pairs g)
      fun e g => ∃ done, ∃ p ∈ pairs, motive done g ∧ e = .unmatchedAggregator p.2 := by
  -- the pairs are split into those that have been folded and those that are left
  have main : ∀ (rest done : List (String × String)) (g : Folding), pairs = done ++ rest →
      Foldable position rest g.wiring → motive done g →
      Step.Ensures (rest.forM fun p => foldOne p.1 p.2) g
        (fun _ g' => Foldable position [] g'.wiring ∧ motive pairs g')
        fun e g' => ∃ done, ∃ p ∈ pairs, motive done g' ∧ e = .unmatchedAggregator p.2 := by
    intro rest
    induction rest with
    | nil =>
      intro done g hsplit hg hm
      obtain rfl : pairs = done := by simpa using hsplit
      exact Step.ensures_pure ⟨hg, hm⟩
    | cons p rest ih =>
      intro done g hsplit hg hm
      obtain ⟨hs, ht, -⟩ := hg.ends p List.mem_cons_self
      have first := foldOne_of_mem hs ht
      refine (first.mono (fun _ _ h => h) fun e t he => ?_).bind fun _ g' hg' => ?_
      · obtain ⟨rfl, rfl⟩ := he
        exact ⟨done, p, by simp [hsplit], hm, rfl⟩
      · exact ih (done ++ [p]) g' (by simpa using hsplit) (hg.next hg'.1)
          (step done p rest g g' hsplit hg hm hg'.1 hg'.2)
  exact main pairs [] f rfl h start

section Pairs

variable {registry : Registry} {order : List String} {blocks : List Block} (nodup : order.Nodup)
  (matched : matchAll registry order = .ok blocks)

/-- A fork of an order, and behind it the aggregator that closes it. -/
structure Paired (registry : Registry) (order : List String) (p : String × String) : Prop where
  start : p.1 ∈ order
  opening : bracket? registry p.1 = some .opening
  stop : p.2 ∈ order
  closing : bracket? registry p.2 = some .closing
  before : order.idxOf p.1 < order.idxOf p.2

include nodup matched

theorem paired_of_matchAll {p : String × String} (h : p ∈ pairsAll blocks) :
    Paired registry order p := by
  rw [pairsAll_of_matchAll matched] at h
  obtain ⟨hstart, hstop, closing, before⟩ :=
    mem_closings (Wiring.pairwise_idxOf nodup) (by simp) p h
  obtain ⟨hstart, opening⟩ := hstart.resolve_left (by simp)
  exact ⟨hstart, opening, hstop, closing, before⟩

theorem nested_of_matchAll : (pairsAll blocks).Pairwise (Nested order.idxOf) := by
  rw [pairsAll_of_matchAll matched]
  exact closings_nested (Wiring.pairwise_idxOf nodup) (by simp) .nil

/-- The fork and the aggregator of a matched pair are different nodes, and neither of them is the
fork of an earlier pair. -/
theorem fresh_of_matchAll {done rest : List (String × String)} {p : String × String}
    (split : pairsAll blocks = done ++ p :: rest) :
    p.1 ≠ p.2 ∧ p.1 ∉ done.map Prod.fst ∧ p.2 ∉ done.map Prod.fst := by
  have nested := nested_of_matchAll nodup matched
  rw [split] at nested
  have paired : ∀ q ∈ done ++ p :: rest, Paired registry order q :=
    fun q hq => paired_of_matchAll nodup matched (split ▸ hq)
  obtain ⟨-, -, -, closing, before⟩ := paired p (by simp)
  refine ⟨fun he => ?_, fun hdone => ?_, fun hdone => ?_⟩
  · rw [he] at before
    exact Nat.lt_irrefl _ before
  · -- of two pairs, one opens before the other
    obtain ⟨q, hq, he⟩ := List.mem_map.mp hdone
    obtain ⟨hlast, hfirst⟩ := (List.pairwise_append.mp nested).2.2 q hq p List.mem_cons_self
    have before' := (paired q (List.mem_append_left _ hq)).before
    rw [he] at before' hfirst
    dsimp only at hlast hfirst
    omega
  · obtain ⟨q, hq, he⟩ := List.mem_map.mp hdone
    have opening := (paired q (List.mem_append_left _ hq)).opening
    rw [he, closing] at opening
    cases opening

/-- An aggregator closes one block only. -/
theorem eq_of_stop_eq {p q : String × String} (hp : p ∈ pairsAll blocks) (hq : q ∈ pairsAll blocks)
    (h : p.2 = q.2) : p = q := by
  have rising : ((pairsAll blocks).map fun p => order.idxOf p.2).Nodup :=
    List.pairwise_map.mpr ((nested_of_matchAll nodup matched).imp fun h => Nat.ne_of_lt h.1)
  exact List.inj_on_of_nodup_map rising hp hq (congrArg order.idxOf h)

end Pairs

/-- The pairs matched in a topological order can be folded in a wiring of that order. -/
theorem foldable_of_matchAll {w : Wiring} (v : w.Valid) {order : List String}
    (isOrder : w.IsOrder order) {registry : Registry} {blocks : List Block}
    (matched : matchAll registry order = .ok blocks) :
    Foldable order.idxOf (pairsAll blocks) w := by
  have nodup := isOrder.perm.nodup_iff.mpr v.nodup
  refine ⟨v, isOrder.forward, fun p hp => ?_, nested_of_matchAll nodup matched⟩
  have paired := paired_of_matchAll nodup matched hp
  exact ⟨isOrder.perm.mem_iff.mp paired.start, isOrder.perm.mem_iff.mp paired.stop, paired.before⟩

/-- A fold of all matched blocks ends with an order of what is left, or at an aggregator that no
path reaches from its fork. -/
theorem foldAll_keeps_order {w : Wiring} (built : w.Built) (acyclic : w.Acyclic)
    (registry : Registry) :
    ∃ order, w.topologicalOrder = .ok order ∧
      ∀ blocks, matchAll registry order = .ok blocks →
        match foldAll blocks ⟨registry, w⟩ with
        | (.ok _, f) =>
            (∀ p ∈ pairsAll blocks, p.2 ∉ f.wiring.nodes) ∧
              f.wiring.IsOrder (order.filter f.wiring.contains)
        | (.error e, _) => ∃ p ∈ pairsAll blocks, e = .unmatchedAggregator p.2 := by
  have v := built.valid
  obtain ⟨order, hsort⟩ := v.exists_topologicalOrder acyclic
  have isOrder := v.isOrder_of_topologicalOrder hsort
  refine ⟨order, hsort, fun blocks matched => ?_⟩
  -- folding only takes nodes away, and the last node of each pair for good
  let motive (done : List (String × String)) (f : Folding) : Prop :=
    f.wiring.nodes ⊆ w.nodes ∧ ∀ p ∈ done, p.2 ∉ f.wiring.nodes
  have foldable := foldable_of_matchAll v isOrder matched
  have run := Foldable.run (f := ⟨registry, w⟩) foldable (motive := motive)
    ⟨fun _ hid => hid, by simp⟩ fun done p rest g g' _ hg hm hfold _ => ?_
  · rw [← foldAll_eq] at run
    unfold Step.Ensures at run
    split at run
    · next u f hrun =>
      obtain ⟨last, sub, gone⟩ := run
      simp only [hrun]
      refine ⟨gone, ?_, fun a b hab => ?_⟩
      · have hnodup := (isOrder.perm.nodup_iff.mpr v.nodup).filter f.wiring.contains
        refine (List.perm_ext_iff_of_nodup hnodup last.valid.nodup).mpr fun id => ?_
        have hmem : id ∈ f.wiring.nodes → id ∈ order := fun h => isOrder.perm.mem_iff.mpr (sub h)
        simp only [List.mem_filter, Wiring.contains, List.contains_iff_mem]
        exact ⟨And.right, fun h => ⟨hmem h, h⟩⟩
      · refine Wiring.idxOf_filter_lt ?_ (last.forward a b hab)
        obtain ⟨p, hp, rfl, -⟩ := hab
        simpa [Wiring.contains] using last.valid.source p hp
    · next e f hrun =>
      obtain ⟨-, p, hp, -, he⟩ := run
      simp only [hrun]
      exact ⟨p, hp, he⟩
  · have folds := hg.valid.folds hfold
    obtain ⟨sub, gone⟩ := hm
    refine ⟨fun id hid => sub (folds.mem_nodes.mp hid).1, fun q hq hin => ?_⟩
    obtain ⟨hold, hne, -⟩ := folds.mem_nodes.mp hin
    rcases List.mem_append.mp hq with hq | hq
    · exact gone q hq hold
    · exact hne (List.mem_singleton.mp hq ▸ rfl)

/-- A fork with a node in one branch and none in the other. -/
def oneBranch : Wiring :=
  ((({} : Wiring).addLink "f" "a" { key := "true" }).addLink "a" "g" {}).addLink "f" "g"
    { key := "false" }

/-- The fork of `oneBranch` and its aggregator. -/
def oneBranchEnds : Registry :=
  [ ("f", { id := "f", kind := "ifs", lowerKind := "ifs" }),
    ("g", { id := "g", kind := "aggregator", lowerKind := "aggregator" }) ]

theorem foldAll_keeps_order_oneBranch :
    matchAll oneBranchEnds ["f", "a", "g"] = .ok [.mk "f" "g" []] ∧
      ∃ order, oneBranch.topologicalOrder = .ok order ∧
        ∀ blocks, matchAll oneBranchEnds order = .ok blocks →
          match foldAll blocks ⟨oneBranchEnds, oneBranch⟩ with
          | (.ok _, f) =>
              (∀ p ∈ pairsAll blocks, p.2 ∉ f.wiring.nodes) ∧
                f.wiring.IsOrder (order.filter f.wiring.contains)
          | (.error e, _) => ∃ p ∈ pairsAll blocks, e = .unmatchedAggregator p.2 := by
  refine ⟨by rfl, foldAll_keeps_order (((Wiring.Built.empty.addLink _ _ _).addLink _ _ _).addLink
    _ _ _) (Wiring.acyclic_of_forward ["f", "a", "g"].idxOf ?_) oneBranchEnds⟩
  rintro a b ⟨p, hp, rfl, rfl⟩
  have forward : ∀ p ∈ oneBranch.placed,
      ["f", "a", "g"].idxOf p.link.source < ["f", "a", "g"].idxOf p.link.target := by decide
  exact forward p hp

end Block

end WorkflowCompiler
