import WorkflowCompiler.Proofs.Wiring.Regions

/-!
# Cycles

A sort succeeds exactly on wirings without cycles, and so does the search for a circle, which knows
nothing of the sort. What a failing sort names is what lies on a cycle or behind one, and no sort,
however it ends, counts a link off that it has not counted before.
-/
namespace WorkflowCompiler

namespace Wiring

open Relation SortState

theorem links_eq (w : Wiring) : w.links = w.placed.map PlacedLink.link := by
  have main : ∀ (slots : List (Option Link)) (k : Nat),
      slots.filterMap id = (placedFrom k slots).map PlacedLink.link := by
    intro slots
    induction slots with
    | nil => exact fun _ => rfl
    | cons slot slots ih =>
      intro k
      cases slot with
      | none => exact ih (k + 1)
      | some link => exact congrArg (link :: ·) (ih (k + 1))
  exact main w.slots 0

theorem joined_iff_link {w : Wiring} {a b : String} :
    w.Joined a b ↔ ∃ l ∈ w.links, l.source = a ∧ l.target = b := by
  simp [Joined, links_eq]

/-! ## Links that go on for ever -/

theorem continued_sublist (links : List Link) : (continued links).Sublist links :=
  List.filter_sublist

theorem mem_continued {links : List Link} {l : Link} :
    l ∈ continued links ↔ l ∈ links ∧ ∃ next ∈ links, next.source = l.target := by
  simp [continued]

theorem endless_subset (links : List Link) : endless links ⊆ links := by
  fun_induction endless links with
  | case1 links _ ih => exact List.Subset.trans ih (continued_sublist links).subset
  | case2 => exact List.Subset.refl _

theorem continued_endless (links : List Link) : continued (endless links) = endless links := by
  fun_induction endless links with
  | case1 _ _ ih => exact ih
  | case2 links hlt => exact (continued_sublist links).eq_of_length_le (Nat.le_of_not_lt hlt)

/-- Behind an endless link some endless link goes on. -/
theorem exists_next {links : List Link} {l : Link} (h : l ∈ endless links) :
    ∃ next ∈ endless links, next.source = l.target :=
  (mem_continued.mp ((continued_endless links).symm ▸ h)).2

/-- Links behind each of which another of them goes on are never taken away. -/
theorem subset_endless {links kept : List Link} (sub : kept ⊆ links)
    (goes : ∀ l ∈ kept, ∃ next ∈ kept, next.source = l.target) : kept ⊆ endless links := by
  fun_induction endless links with
  | case1 links _ ih =>
    refine ih fun l hl => mem_continued.mpr ⟨sub hl, ?_⟩
    obtain ⟨next, hnext, hsource⟩ := goes l hl
    exact ⟨next, sub hnext, hsource⟩
  | case2 => exact sub

theorem isCyclic_iff (w : Wiring) : w.isCyclic = true ↔ ∃ c, TransGen w.Joined c c := by
  have nonempty : w.isCyclic = true ↔ endless w.links ≠ [] := by simp [isCyclic]
  rw [nonempty]
  constructor
  · intro h
    by_contra none
    -- without a cycle, some end of an endless link would be left by no such link
    have off : ∀ id ∈ (endless w.links).map Link.target,
        ¬ TransGen (Function.swap w.Joined) id id := fun id _ hid =>
      none ⟨id, transGen_swap.mp hid⟩
    obtain ⟨id, hid, hlast⟩ := exists_first off (by simpa using h)
    obtain ⟨l, hl, rfl⟩ := List.mem_map.mp hid
    obtain ⟨next, hnext, hsource⟩ := exists_next hl
    exact hlast next.target (List.mem_map_of_mem hnext)
      (joined_iff_link.mpr ⟨next, endless_subset _ hnext, hsource, rfl⟩)
  · rintro ⟨c, hc⟩
    classical
    -- the links whose ends lead back to their starts go on among themselves
    let kept := w.links.filter fun l => ReflTransGen w.Joined l.target l.source
    have mem : ∀ {l}, l ∈ kept ↔ l ∈ w.links ∧ ReflTransGen w.Joined l.target l.source := by
      simp [kept]
    have goes : ∀ l ∈ kept, ∃ next ∈ kept, next.source = l.target := by
      intro l hl
      obtain ⟨hin, hback⟩ := mem.mp hl
      rcases hback.cases_head with he | ⟨b, hjoined, hrest⟩
      · exact ⟨l, hl, he.symm⟩
      · obtain ⟨next, hnext, hsource, rfl⟩ := joined_iff_link.mp hjoined
        have hlast : w.Joined l.source l.target := joined_iff_link.mpr ⟨l, hin, rfl, rfl⟩
        exact ⟨next, mem.mpr ⟨hnext, hsource ▸ hrest.tail hlast⟩, hsource⟩
    obtain ⟨b, hjoined, hback⟩ := TransGen.head'_iff.mp hc
    obtain ⟨l, hl, rfl, rfl⟩ := joined_iff_link.mp hjoined
    exact List.ne_nil_of_mem (subset_endless (List.filter_subset_self _) goes (mem.mpr ⟨hl, hback⟩))

/-! ## Counters -/

theorem get?_tally {nodes : List String} {count : String → Nat} {id : String} (h : id ∈ nodes) :
    Entries.get? (tally nodes count) id = some (count id) := by
  induction nodes with
  | nil => simp at h
  | cons node nodes ih =>
    show (if node = id then some (count node) else Entries.get? (tally nodes count) id) = _
    split
    · next he => rw [he]
    · next he => exact ih ((List.mem_cons.mp h).resolve_left (Ne.symm he))

/-- Whether each link that leaves the next node is still counted when it is followed. -/
def SortState.Counts (w : Wiring) (s : SortState) : Prop :=
  ∀ id ready before target after, s.ready = id :: ready →
    w.successors id = before ++ target :: after →
      ∃ n, Entries.get? (followAll s.pending before).1 target = some (n + 1)

theorem Sorted.counts {w : Wiring} (v : w.Valid) {order ready : List String}
    (s : w.Sorted order ready) : (w.sorting order ready).Counts w := by
  rintro id rest before target after hready split
  obtain rfl : ready = id :: rest := hready
  have hid : id ∉ order := fun h => (List.nodup_append.mp s.nodup).2.2 id h id (by simp) rfl
  have hnodes : ∀ x ∈ before ++ target :: after, x ∈ w.nodes := fun x hx =>
    v.successors_mem (split ▸ hx)
  have hbefore : ∀ x ∈ before, x ∈ w.nodes := fun x hx => hnodes x (by simp [hx])
  have henough := w.count_successors_le hid target
  rw [split, List.count_append, List.count_cons_self] at henough
  refine ⟨w.unfollowed order target - before.count target - 1, ?_⟩
  show Entries.get? (followAll (tally w.nodes (w.unfollowed order)) before).1 target = _
  rw [followAll_tally v.nodup _ hbefore, get?_tally (hnodes target (by simp))]
  congr 1
  omega

/-! ## Sorting -/

/-- What a sort of a wiring comes to, whichever way it ends. -/
structure Sorts (w : Wiring) : Prop where
  succeeds : (∃ order, w.topologicalOrder = .ok order) ↔ ¬ ∃ c, TransGen w.Joined c c
  decides : w.isCyclic = false ↔ ¬ ∃ c, TransGen w.Joined c c
  orders : ∀ order, w.topologicalOrder = .ok order →
    order.Perm w.nodes ∧ ∀ a b, w.Joined a b → order.idxOf a < order.idxOf b
  names : ∀ e, w.topologicalOrder = .error e → ∃ ids, e = .cyclicGraph ids ∧ ids.Sublist w.nodes ∧
    ∀ id, id ∈ ids ↔ ∃ c, TransGen w.Joined c c ∧ ReflTransGen w.Joined c id
  counts : ∀ n, (SortState.run w n w.sortStart).Counts w

theorem Valid.mem_of_behindCycle {w : Wiring} (v : w.Valid) {id : String} (h : w.BehindCycle id) :
    id ∈ w.nodes := by
  obtain ⟨c, hc, hlead⟩ := h
  obtain ⟨b, -, p, hp, -, rfl⟩ := TransGen.tail'_iff.mp (hc.trans_left hlead)
  exact v.target p hp

/-- A wiring is sorted exactly when it has no cycle. -/
theorem Built.sorts {w : Wiring} (built : w.Built) : w.Sorts := by
  have v := built.valid
  refine ⟨⟨fun ⟨order, h⟩ => ?_, fun none => ?_⟩, ?_, fun order h => ?_, fun e h => ?_, fun n => ?_⟩
  · have forward := (v.isOrder_of_topologicalOrder h).forward
    exact fun ⟨c, hc⟩ => acyclic_of_forward _ forward c hc
  · exact v.exists_topologicalOrder fun c hc => none ⟨c, hc⟩
  · rw [← isCyclic_iff, Bool.not_eq_true]
  · have isOrder := v.isOrder_of_topologicalOrder h
    exact ⟨isOrder.perm, isOrder.forward⟩
  · unfold topologicalOrder at h
    dsimp only at h
    split at h
    · cases h
    · refine ⟨_, (Except.error.inj h).symm, List.filter_sublist, fun id => ?_⟩
      rw [List.mem_filter, Bool.not_eq_true', List.contains_eq_mem, decide_eq_false_iff_not]
      constructor
      · rintro ⟨hnode, hout⟩
        exact not_not.mp fun off => hout ((v.mem_released hnode).mpr off)
      · intro behind
        have hnode := v.mem_of_behindCycle behind
        exact ⟨hnode, fun hin => (v.mem_released hnode).mp hin behind⟩
  · obtain ⟨order, ready, hrun, sorted, -⟩ := v.sorted_start.run v n
    rw [sortStart_eq, hrun]
    exact sorted.counts v

/-- Two nodes in a circle, one before it, one behind it, and one apart that is linked to itself. -/
def knot : Wiring :=
  ((((({} : Wiring).addLink "before" "b" {}).addLink "b" "a" {}).addLink "a" "b" {}).addLink "a"
    "behind" {}).addLink "self" "self" {}

theorem sorts_knot : knot.Built ∧ knot.Sorts ∧
    knot.topologicalOrder = .error (.cyclicGraph ["b", "a", "behind", "self"]) :=
  have built : knot.Built :=
    ((((Built.empty.addLink _ _ _).addLink _ _ _).addLink _ _ _).addLink _ _ _).addLink _ _ _
  ⟨built, built.sorts, by rfl⟩

end Wiring

end WorkflowCompiler
