import Mathlib.Data.List.Perm.Subperm
import Mathlib.Logic.Relation
import Mathlib.Order.WellFoundedSet
import WorkflowCompiler.Proofs.Wiring.Slots

/-!
# Sorting a wiring

The sort counts for each node the links that are still to be followed. That count is determined by
the nodes in order so far, and a node is released exactly when it reaches zero. So every link leads
forward in the order, and only a cycle keeps nodes out of it.
-/
namespace WorkflowCompiler

namespace Wiring

open SortState

/-- Whether some link leads from one node to the other. -/
def Joined (w : Wiring) (a b : String) : Prop :=
  ∃ p ∈ w.placed, p.link.source = a ∧ p.link.target = b

/-- No node leads back to itself. -/
def Acyclic (w : Wiring) : Prop := ∀ id, ¬ Relation.TransGen w.Joined id id

/-- A topological order: all nodes, each once, and every link leads forward. -/
structure IsOrder (w : Wiring) (order : List String) : Prop where
  perm : order.Perm w.nodes
  forward : ∀ a b, w.Joined a b → order.idxOf a < order.idxOf b

/-- The number of links into a node whose source is not done. -/
def unfollowed (w : Wiring) (done : List String) (id : String) : Nat :=
  (w.incoming id).countP fun p => p.link.source ∉ done

theorem unfollowed_eq_zero {w : Wiring} {done : List String} {id : String} :
    w.unfollowed done id = 0 ↔ ∀ a, w.Joined a id → a ∈ done := by
  unfold unfollowed Joined
  rw [List.countP_eq_zero]
  constructor
  · rintro h a ⟨p, hp, rfl, ht⟩
    simpa using h p (mem_incoming.mpr ⟨hp, ht⟩)
  · intro h p hp
    obtain ⟨hp, ht⟩ := mem_incoming.mp hp
    simpa using h p.link.source ⟨p, hp, rfl, ht⟩

/-- The targets of the links that leave a node, in the order of their slots. -/
def successors (w : Wiring) (id : String) : List String :=
  (w.outgoing id).map fun p => p.link.target

theorem mem_successors {w : Wiring} {id other : String} :
    other ∈ w.successors id ↔ w.Joined id other := by
  unfold successors Joined
  rw [List.mem_map]
  constructor
  · rintro ⟨p, hp, rfl⟩
    obtain ⟨hp, hs⟩ := mem_outgoing.mp hp
    exact ⟨p, hp, hs, rfl⟩
  · rintro ⟨p, hp, hs, ht⟩
    exact ⟨p, mem_outgoing.mpr ⟨hp, hs⟩, ht⟩

/-- Putting a node in order follows exactly its own links. -/
theorem unfollowed_append (w : Wiring) {done : List String} {id : String} (h : id ∉ done)
    (other : String) :
    w.unfollowed done other =
      w.unfollowed (done ++ [id]) other + (w.successors id).count other := by
  unfold unfollowed incoming successors outgoing
  rw [List.count_eq_countP, List.countP_map, List.countP_filter, List.countP_filter,
    List.countP_filter]
  induction w.placed with
  | nil => rfl
  | cons p ps ih =>
    simp only [List.countP_cons, ih]
    by_cases hs : p.link.source = id
    · subst hs
      by_cases ht : p.link.target = other
      · simp [h, ht]
        omega
      · simp [h, ht]
    · by_cases ht : p.link.target = other
      · by_cases hd : p.link.source ∈ done
        · simp [hs, ht, hd]
        · simp [hs, ht, hd]
          omega
      · simp [hs, ht]

/-! ## Counting -/

/-- The nodes with what is counted for each. -/
def tally (nodes : List String) (count : String → Nat) : List (String × Nat) :=
  nodes.map fun id => (id, count id)

/-- One less is counted for a node. -/
def countOff (count : String → Nat) (id : String) : String → Nat :=
  fun other => if other = id then count id - 1 else count other

/-- The nodes whose count reaches zero while these are counted off in turn. -/
def runOut : (String → Nat) → List String → List String
  | _, [] => []
  | count, id :: ids =>
      if count id - 1 = 0 then id :: runOut (countOff count id) ids
      else runOut (countOff count id) ids

theorem follow_tally {nodes : List String} (nodup : nodes.Nodup) (count : String → Nat)
    {id : String} (h : id ∈ nodes) :
    follow (tally nodes count) id = (tally nodes (countOff count id), decide (count id - 1 = 0)) := by
  induction nodes with
  | nil => simp at h
  | cons node nodes ih =>
    have hn := List.nodup_cons.mp nodup
    by_cases he : node = id
    · subst he
      have hrest : tally nodes (countOff count node) = tally nodes count := by
        refine List.map_congr_left fun x hx => ?_
        have hne : x ≠ node := fun he => hn.1 (he ▸ hx)
        simp [countOff, hne]
      have hcons : tally (node :: nodes) (countOff count node) =
          (node, count node - 1) :: tally nodes count := by
        rw [← hrest]
        simp [tally, countOff]
      rw [hcons]
      simp [tally, follow]
    · have hid : id ∈ nodes := (List.mem_cons.mp h).resolve_left (Ne.symm he)
      have hi := ih hn.2 hid
      simp only [tally, List.map_cons, follow, if_neg he] at hi ⊢
      rw [hi]
      simp [countOff, he]

theorem followAll_tally {nodes : List String} (nodup : nodes.Nodup) (count : String → Nat)
    {ids : List String} (h : ∀ id ∈ ids, id ∈ nodes) :
    followAll (tally nodes count) ids =
      (tally nodes fun id => count id - ids.count id, runOut count ids) := by
  induction ids generalizing count with
  | nil => simp [followAll, runOut]
  | cons id ids ih =>
    have hsub : (fun other => countOff count id other - ids.count other) =
        fun other => count other - (id :: ids).count other := by
      funext other
      by_cases he : other = id
      · subst he
        simp [countOff]
        omega
      · simp [countOff, he, List.count_cons_of_ne (Ne.symm he)]
    rw [followAll, follow_tally nodup count (h id (by simp))]
    simp only [ih _ fun x hx => h x (by simp [hx]), hsub, runOut, decide_eq_true_eq]

/-- Counting one node off leaves enough for the others. -/
theorem count_le_countOff {count : String → Nat} {id : String} {ids : List String}
    (enough : ∀ x ∈ id :: ids, (id :: ids).count x ≤ count x) :
    ∀ x ∈ ids, ids.count x ≤ countOff count id x := by
  intro x hx
  have h := enough x (List.mem_cons_of_mem _ hx)
  by_cases he : x = id
  · subst he
    simp [countOff] at h ⊢
    omega
  · simpa [countOff, he, List.count_cons_of_ne (Ne.symm he)] using h

theorem runOut_sublist (count : String → Nat) (ids : List String) :
    (runOut count ids).Sublist ids := by
  induction ids generalizing count with
  | nil => exact .refl _
  | cons id ids ih =>
    unfold runOut
    split
    · exact (ih _).cons_cons id
    · exact (ih _).cons id

/-- A count runs out at the last of the nodes that are counted off, and only there. -/
theorem mem_runOut {count : String → Nat} {ids : List String}
    (enough : ∀ id ∈ ids, ids.count id ≤ count id) (id : String) :
    id ∈ runOut count ids ↔ id ∈ ids ∧ count id = ids.count id := by
  induction ids generalizing count with
  | nil => simp [runOut]
  | cons x xs ih =>
    have hx := enough x (by simp)
    have hi := ih (count_le_countOff enough)
    simp only [List.count_cons_self] at hx
    unfold runOut
    by_cases he : id = x
    · subst he
      have hm : id ∈ xs ↔ 0 < xs.count id := List.count_pos_iff.symm
      split
      · simp only [List.mem_cons, true_or, List.count_cons_self, true_and, true_iff]
        omega
      · simp only [hi, hm, List.mem_cons, true_or, List.count_cons_self, true_and, countOff, if_true]
        omega
    · have hc : (x :: xs).count id = xs.count id := List.count_cons_of_ne (Ne.symm he)
      split <;> simp [hi, he, hc, countOff]

theorem runOut_nodup {count : String → Nat} {ids : List String}
    (enough : ∀ id ∈ ids, ids.count id ≤ count id) : (runOut count ids).Nodup := by
  induction ids generalizing count with
  | nil => exact .nil
  | cons x xs ih =>
    have hx := enough x (by simp)
    simp only [List.count_cons_self] at hx
    unfold runOut
    split
    · refine List.nodup_cons.mpr ⟨fun hm => ?_, ih (count_le_countOff enough)⟩
      have : 0 < xs.count x := List.count_pos_iff.mpr ((runOut_sublist _ _).subset hm)
      omega
    · exact ih (count_le_countOff enough)

/-! ## The run -/

/-- The state of a sort in which these nodes are in order and those are ready. -/
def sorting (w : Wiring) (order ready : List String) : SortState :=
  ⟨tally w.nodes (w.unfollowed order), ready, order⟩

/-- The nodes released when a node is put in order behind others. -/
def releases (w : Wiring) (order : List String) (id : String) : List String :=
  runOut (w.unfollowed order) (w.successors id)

theorem sortStart_eq (w : Wiring) :
    w.sortStart = w.sorting [] (w.nodes.filter fun id => w.unfollowed [] id = 0) := by
  have hcount : ∀ id, w.unfollowed [] id = (w.incoming id).length := by
    intro id
    unfold unfollowed
    exact List.countP_eq_length.mpr fun p _ => by simp
  unfold sortStart sorting tally
  simp only [hcount, List.filter_map, List.map_map]
  congr 1
  exact List.map_id _

theorem Valid.successors_mem {w : Wiring} (v : w.Valid) {id other : String}
    (h : other ∈ w.successors id) : other ∈ w.nodes := by
  obtain ⟨p, hp, -, rfl⟩ := mem_successors.mp h
  exact v.target p hp

theorem count_successors_le (w : Wiring) {order : List String} {id : String} (h : id ∉ order)
    (other : String) : (w.successors id).count other ≤ w.unfollowed order other := by
  have := w.unfollowed_append h other
  omega

theorem Valid.step_sorting {w : Wiring} (v : w.Valid) {order : List String} {id : String}
    (h : id ∉ order) (ready : List String) :
    SortState.step w (w.sorting order (id :: ready)) =
      w.sorting (order ++ [id]) (w.releases order id ++ ready) := by
  have hcount : (fun other => w.unfollowed order other - (w.successors id).count other) =
      w.unfollowed (order ++ [id]) := by
    funext other
    have := w.unfollowed_append h other
    omega
  have hnodes : ∀ other ∈ w.successors id, other ∈ w.nodes := fun _ => v.successors_mem
  have hall := followAll_tally v.nodup (w.unfollowed order) hnodes
  rw [hcount] at hall
  unfold SortState.step sorting
  simp only
  rw [show (w.outgoing id).map (fun p => p.link.target) = w.successors id from rfl, hall]
  rfl

theorem mem_releases {w : Wiring} {order : List String} {id : String} (h : id ∉ order)
    (other : String) :
    other ∈ w.releases order id ↔
      w.Joined id other ∧ ∀ a, w.Joined a other → a ∈ order ++ [id] := by
  have hcount := w.unfollowed_append h other
  unfold releases
  rw [mem_runOut fun x _ => w.count_successors_le h x, mem_successors, ← unfollowed_eq_zero]
  refine and_congr_right fun _ => ?_
  omega

theorem releases_nodup (w : Wiring) {order : List String} {id : String} (h : id ∉ order) :
    (w.releases order id).Nodup :=
  runOut_nodup fun x _ => w.count_successors_le h x

/-- The ready nodes are exactly those that are not in order but whose predecessors are, and every
link so far leads forward. -/
structure Sorted (w : Wiring) (order ready : List String) : Prop where
  nodup : (order ++ ready).Nodup
  mem : ∀ id, id ∈ order ++ ready ↔ id ∈ w.nodes ∧ ∀ a, w.Joined a id → a ∈ order
  forward : ∀ a b, w.Joined a b → b ∈ order → order.idxOf a < order.idxOf b

theorem Valid.sorted_start {w : Wiring} (v : w.Valid) :
    w.Sorted [] (w.nodes.filter fun id => w.unfollowed [] id = 0) where
  nodup := v.nodup.filter _
  mem := by simp [unfollowed_eq_zero]
  forward := by simp

theorem Sorted.step {w : Wiring} (v : w.Valid) {order ready : List String} {id : String}
    (s : w.Sorted order (id :: ready)) :
    w.Sorted (order ++ [id]) (w.releases order id ++ ready) := by
  have parts := List.nodup_append.mp s.nodup
  have hid : id ∉ order := fun h => parts.2.2 id h id (by simp) rfl
  have before : ∀ a, w.Joined a id → a ∈ order := ((s.mem id).mp (by simp)).2
  have fresh : ∀ x ∈ w.releases order id, x ∉ order ++ id :: ready := by
    intro x hx hold
    exact hid (((s.mem x).mp hold).2 id ((mem_releases hid x).mp hx).1)
  refine ⟨?_, fun x => ?_, fun a b hab hb => ?_⟩
  · have hsplit : (order ++ [id] ++ (w.releases order id ++ ready)).Perm
        (w.releases order id ++ (order ++ id :: ready)) := by
      have hswap : (order ++ [id] ++ w.releases order id).Perm
          (w.releases order id ++ (order ++ [id])) := List.perm_append_comm
      simpa using hswap.append_right ready
    refine hsplit.nodup_iff.mpr (List.nodup_append.mpr ⟨w.releases_nodup hid, s.nodup, ?_⟩)
    intro x hx y hy he
    exact fresh x hx (he ▸ hy)
  · have hold := s.mem x
    have hnew := mem_releases (w := w) hid x
    constructor
    · intro hx
      by_cases hr : x ∈ w.releases order id
      · obtain ⟨⟨p, hp, -, ht⟩, hall⟩ := hnew.mp hr
        exact ⟨ht ▸ v.target p hp, hall⟩
      · have hx : x ∈ order ++ id :: ready := by
          simp only [List.mem_append, List.mem_cons, List.not_mem_nil, or_false] at hx ⊢
          tauto
        exact ⟨(hold.mp hx).1, fun a ha => List.mem_append_left _ ((hold.mp hx).2 a ha)⟩
    · rintro ⟨hnode, hall⟩
      by_cases hj : w.Joined id x
      · exact List.mem_append_right _ (List.mem_append_left _ (hnew.mpr ⟨hj, hall⟩))
      · have hx : x ∈ order ++ id :: ready := by
          refine hold.mpr ⟨hnode, fun a ha => ?_⟩
          rcases List.mem_append.mp (hall a ha) with h | h
          · exact h
          · exact absurd (List.mem_singleton.mp h ▸ ha) hj
        simp only [List.mem_append, List.mem_cons, List.not_mem_nil, or_false] at hx ⊢
        tauto
  · rcases List.mem_append.mp hb with hb | hb
    · have hlt := s.forward a b hab hb
      have ha : a ∈ order := List.idxOf_lt_length_iff.mp (hlt.trans (List.idxOf_lt_length_of_mem hb))
      rwa [List.idxOf_append_of_mem ha, List.idxOf_append_of_mem hb]
    · obtain rfl := List.mem_singleton.mp hb
      have ha := before a hab
      rw [List.idxOf_append_of_mem ha, List.idxOf_append_of_notMem hid]
      have := List.idxOf_lt_length_of_mem ha
      omega

/-- After so many steps there are so many nodes in order, or none is ready any more. -/
theorem Sorted.run {w : Wiring} (v : w.Valid) (n : Nat) {order ready : List String}
    (s : w.Sorted order ready) :
    ∃ order' ready', SortState.run w n (w.sorting order ready) = w.sorting order' ready' ∧
      w.Sorted order' ready' ∧ (order'.length = order.length + n ∨ ready' = []) := by
  induction n generalizing order ready with
  | zero => exact ⟨order, ready, rfl, s, .inl rfl⟩
  | succ n ih =>
    cases ready with
    | nil =>
      have hstop : ∀ m, SortState.run w m (w.sorting order []) = w.sorting order [] := by
        intro m
        induction m with
        | zero => rfl
        | succ m ihm => exact ihm
      exact ⟨order, [], hstop _, s, .inr rfl⟩
    | cons id ready =>
      have hid : id ∉ order := fun h => (List.nodup_append.mp s.nodup).2.2 id h id (by simp) rfl
      obtain ⟨order', ready', hrun, hs, hlen⟩ := ih (s.step v)
      refine ⟨order', ready', ?_, hs, hlen.imp_left fun h => ?_⟩
      · rw [SortState.run, v.step_sorting hid]
        exact hrun
      · rw [h, List.length_append, List.length_singleton]
        omega

/-- A released order is what a sorted state without ready nodes, or with all nodes, has. -/
theorem Valid.released_spec {w : Wiring} (v : w.Valid) :
    ∃ ready, w.Sorted w.released ready ∧ (w.released.length = w.nodes.length ∨ ready = []) := by
  obtain ⟨order, ready, hrun, hs, hlen⟩ := v.sorted_start.run v w.nodes.length
  have hr : w.released = order := by
    unfold released
    rw [sortStart_eq, hrun]
    rfl
  exact ⟨ready, hr ▸ hs, hr ▸ by simpa using hlen⟩

theorem Valid.released_subset {w : Wiring} (v : w.Valid) : w.released ⊆ w.nodes := by
  obtain ⟨ready, s, -⟩ := v.released_spec
  exact fun x hx => ((s.mem x).mp (List.mem_append_left _ hx)).1

theorem Valid.released_nodup {w : Wiring} (v : w.Valid) : w.released.Nodup := by
  obtain ⟨ready, s, -⟩ := v.released_spec
  exact (List.nodup_append.mp s.nodup).1

/-- A sort that releases as many nodes as there are releases all of them. -/
theorem Valid.released_perm {w : Wiring} (v : w.Valid)
    (h : w.released.length = w.nodes.length) : w.released.Perm w.nodes :=
  (v.released_nodup.subperm v.released_subset).perm_of_length_le h.ge

theorem Valid.isOrder_of_topologicalOrder {w : Wiring} (v : w.Valid) {order : List String}
    (h : w.topologicalOrder = .ok order) : w.IsOrder order := by
  obtain ⟨ready, s, -⟩ := v.released_spec
  unfold topologicalOrder at h
  dsimp only at h
  split at h
  · next hlen =>
    obtain rfl := Except.ok.inj h
    have hperm := v.released_perm hlen
    refine ⟨hperm, fun a b hab => s.forward a b hab ?_⟩
    obtain ⟨p, hp, -, rfl⟩ := hab
    exact hperm.mem_iff.mpr (v.target p hp)
  · cases h

/-- Of several elements none of which leads back to itself, some is led to by none of them. -/
theorem exists_first {leads : String → String → Prop} {ids : List String}
    (off : ∀ id ∈ ids, ¬ Relation.TransGen leads id id) (h : ids ≠ []) :
    ∃ x ∈ ids, ∀ y ∈ ids, ¬ leads y x := by
  let before (a b : String) : Prop := a ∈ ids ∧ Relation.TransGen leads a b
  have order : IsStrictOrder String before :=
    { irrefl := fun a h => off a h.1 h.2, trans := fun _ _ _ h h' => ⟨h.1, h.2.trans h'.2⟩ }
  have wf := (List.finite_toSet ids).wellFoundedOn (r := before)
  obtain ⟨x, hx⟩ := List.exists_mem_of_ne_nil ids h
  obtain ⟨⟨m, hm⟩, -, hmin⟩ := wf.has_min Set.univ ⟨⟨x, hx⟩, trivial⟩
  exact ⟨m, hm, fun y hy hj => hmin ⟨y, hy⟩ trivial ⟨hy, .single hj⟩⟩

/-- Whether a node lies on a cycle or behind one. -/
def BehindCycle (w : Wiring) (id : String) : Prop :=
  ∃ c, Relation.TransGen w.Joined c c ∧ Relation.ReflTransGen w.Joined c id

theorem Acyclic.not_behindCycle {w : Wiring} (ac : w.Acyclic) (id : String) : ¬ w.BehindCycle id :=
  fun ⟨c, hc, _⟩ => ac c hc

/-- What leads to a node in order stands before it. -/
theorem Sorted.rises {w : Wiring} {order ready : List String} (s : w.Sorted order ready)
    {a b : String} (h : Relation.TransGen w.Joined a b) (hb : b ∈ order) :
    order.idxOf a < order.idxOf b := by
  induction h using Relation.TransGen.head_induction_on with
  | single hab => exact s.forward _ _ hab hb
  | @head a x hax _ ih =>
    have hx : x ∈ order := List.idxOf_lt_length_iff.mp (ih.trans (List.idxOf_lt_length_of_mem hb))
    exact (s.forward a x hax hx).trans ih

/-- A sort leaves out exactly what lies on a cycle or behind one. -/
theorem Valid.mem_released {w : Wiring} (v : w.Valid) {id : String} (h : id ∈ w.nodes) :
    id ∈ w.released ↔ ¬ w.BehindCycle id := by
  obtain ⟨ready, s, hend⟩ := v.released_spec
  constructor
  · rintro hid ⟨c, hc, hlead⟩
    have hin : c ∈ w.released := by
      rcases Relation.reflTransGen_iff_eq_or_transGen.mp hlead with rfl | hlead
      · exact hid
      · exact List.idxOf_lt_length_iff.mp
          ((s.rises hlead hid).trans (List.idxOf_lt_length_of_mem hid))
    exact Nat.lt_irrefl _ (s.rises hc hin)
  · intro off
    by_contra hout
    have hready : ready = [] := hend.resolve_left fun hlen =>
      hout ((v.released_perm hlen).mem_iff.mpr h)
    subst hready
    classical
    let left := w.nodes.filter fun x => x ∉ w.released ∧ Relation.ReflTransGen w.Joined x id
    have mem : ∀ {x}, x ∈ left ↔ x ∈ w.nodes ∧ x ∉ w.released ∧
        Relation.ReflTransGen w.Joined x id := by simp [left]
    have acyclic : ∀ c ∈ left, ¬ Relation.TransGen w.Joined c c := fun c hc hcycle =>
      off ⟨c, hcycle, (mem.mp hc).2.2⟩
    obtain ⟨m, hm, hfirst⟩ :=
      exists_first acyclic (List.ne_nil_of_mem (mem.mpr ⟨h, hout, .refl⟩))
    obtain ⟨hnode, hmout, hlead⟩ := mem.mp hm
    -- every predecessor of a first missing node is in order, so the node is ready
    have hready : m ∈ w.released ++ [] := by
      refine (s.mem m).mpr ⟨hnode, fun a ha => ?_⟩
      by_contra hn
      have hsource : a ∈ w.nodes := by
        obtain ⟨p, hp, rfl, -⟩ := ha
        exact v.source p hp
      exact hfirst a (mem.mpr ⟨hsource, hn, .head ha hlead⟩) ha
    exact hmout (by simpa using hready)

/-- A wiring without cycles has a topological order. -/
theorem Valid.exists_topologicalOrder {w : Wiring} (v : w.Valid) (ac : w.Acyclic) :
    ∃ order, w.topologicalOrder = .ok order := by
  have hall : w.nodes ⊆ w.released := fun x hx => (v.mem_released hx).mpr (ac.not_behindCycle x)
  exact ⟨w.released, if_pos (Nat.le_antisymm (v.released_nodup.subperm v.released_subset).length_le
    (v.nodup.subperm hall).length_le)⟩

/-! ## Positions -/

/-- Where positions rise along links there are no cycles. -/
theorem acyclic_of_forward {w : Wiring} (position : String → Nat)
    (forward : ∀ a b, w.Joined a b → position a < position b) : w.Acyclic := by
  have rises : ∀ a b, Relation.TransGen w.Joined a b → position a < position b := by
    intro a b h
    induction h with
    | single hab => exact forward a _ hab
    | tail _ hbc ih => exact ih.trans (forward _ _ hbc)
  intro id h
  exact Nat.lt_irrefl _ (rises id id h)

theorem pairwise_idxOf {α : Type} [DecidableEq α] {ids : List α} (nodup : ids.Nodup) :
    ids.Pairwise fun a b => ids.idxOf a < ids.idxOf b := by
  refine List.pairwise_iff_getElem.mpr fun i j hi hj hij => ?_
  rwa [nodup.idxOf_getElem i hi, nodup.idxOf_getElem j hj]

theorem idxOf_filter_lt {ids : List String} {keep : String → Bool} {a b : String}
    (ha : keep a = true) (h : ids.idxOf a < ids.idxOf b) :
    (ids.filter keep).idxOf a < (ids.filter keep).idxOf b := by
  induction ids with
  | nil => simp at h
  | cons id ids ih =>
    by_cases hb : id = b
    · subst hb
      simp at h
    by_cases he : id = a
    · subst he
      rw [List.filter_cons_of_pos ha, List.idxOf_cons_self, List.idxOf_cons_ne _ hb]
      omega
    · rw [List.idxOf_cons_ne _ he, List.idxOf_cons_ne _ hb] at h
      have hrest := ih (by omega)
      by_cases hk : keep id = true
      · rw [List.filter_cons_of_pos hk, List.idxOf_cons_ne _ he, List.idxOf_cons_ne _ hb]
        omega
      · rwa [List.filter_cons_of_neg hk]

end Wiring

end WorkflowCompiler
