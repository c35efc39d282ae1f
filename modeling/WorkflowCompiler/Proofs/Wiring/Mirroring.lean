import Mathlib.Algebra.GroupWithZero.Nat
import WorkflowCompiler.Proofs.Wiring.Cycles
import WorkflowCompiler.Proofs.Wiring.Numbered

/-!
# Numbers that stand for something

Whatever is called on a wiring that is kept by number, no number is ever used that stands for
nothing, and the wiring that the numbers stand for is what the same calls make of it. So the table
and the places always agree, and wires only join what is there.
-/
namespace WorkflowCompiler

namespace Wiring

/-- Appending what is new commutes with a function that keeps different values apart. -/
theorem map_appendNew {α β : Type} [DecidableEq α] [DecidableEq β] {f : α → β} {done more : List α}
    (inj : ∀ a ∈ done ++ more, ∀ b ∈ done ++ more, f a = f b → a = b) :
    (appendNew done more).map f = appendNew (done.map f) (more.map f) := by
  unfold appendNew
  induction more generalizing done with
  | nil => rfl
  | cons x more ih =>
    have hx : f x ∈ done.map f ↔ x ∈ done := by
      refine ⟨fun h => ?_, List.mem_map_of_mem⟩
      obtain ⟨y, hy, he⟩ := List.mem_map.mp h
      exact inj y (by simp [hy]) x (by simp) he ▸ hy
    simp only [List.map_cons, List.foldl_cons, hx]
    split
    · refine ih fun a ha b hb => inj a ?_ b ?_
      · exact (List.sublist_cons_self x more).append_left done |>.subset ha
      · exact (List.sublist_cons_self x more).append_left done |>.subset hb
    · have hrest := @ih (done ++ [x]) (by simpa using inj)
      rwa [List.map_append] at hrest

theorem between_eq (w : Wiring) (start stop : String) :
    w.between start stop =
      ((w.paths start stop).flatten.map (·.link.target)).filter (· ≠ stop) := by
  unfold between inner
  rw [List.map_flatten, List.filter_flatten, List.flatMap_def, List.map_map]
  rfl

end Wiring

namespace Numbered

variable {g : Numbered}

/-! ## Paths -/

theorem pathsFrom?_eq (g : Numbered) (stop n here : Nat) (visited : List Nat) :
    g.pathsFrom? stop n here visited =
      if here = stop then some [[]]
      else match n with
        | 0 => some []
        | n + 1 => do
          let leaving ← g.wiresFrom? here
          let found ← leaving.mapM fun p =>
            if visited.contains p.2.target then some []
            else (g.pathsFrom? stop n p.2.target (p.2.target :: visited)).map fun paths =>
              paths.map (p.1 :: ·)
          return found.flatten := by
  cases n <;> rfl

/-- Whether a place has been visited shows in the ids that have been. -/
theorem Sound.contains_map (s : g.Sound) {visited : List Nat} (taken : ∀ k ∈ visited, g.Taken k)
    {i : Nat} (hi : g.Taken i) :
    (visited.map g.name).contains (g.name i) = visited.contains i := by
  rw [Bool.eq_iff_iff, List.contains_iff_mem, List.contains_iff_mem, List.mem_map]
  refine ⟨fun ⟨k, hk, he⟩ => ?_, fun h => ⟨i, h, rfl⟩⟩
  exact s.name_inj (taken k hk) hi he ▸ hk

/-- The paths between places are those between the ids in them, and no place on the way is vacant. -/
theorem Sound.pathsFrom (s : g.Sound) {j : Nat} {stop : String} (hj : g.places.get? j = some stop)
    (n : Nat) {i : Nat} {here : String} (hi : g.places.get? i = some here) {visited : List Nat}
    (taken : ∀ k ∈ visited, g.Taken k) :
    g.pathsFrom? j n i visited =
      some ((g.wiring.pathsFrom stop n here (visited.map g.name)).map (·.map PlacedLink.slot)) := by
  induction n generalizing i here visited with
  | zero =>
    have hends : i = j ↔ here = stop := s.places_inj hi hj
    rw [pathsFrom?_eq, Wiring.pathsFrom_eq]
    simp only [hends]
    split <;> rfl
  | succ n ih =>
    have hends : i = j ↔ here = stop := s.places_inj hi hj
    rw [pathsFrom?_eq, Wiring.pathsFrom_eq]
    simp only [hends]
    split
    · rfl
    obtain ⟨leaving, hfrom, hsub, -, hlinks⟩ := s.wiresFrom hi
    have each : ∀ p ∈ leaving,
        (if visited.contains p.2.target then some []
          else (g.pathsFrom? j n p.2.target (p.2.target :: visited)).map (·.map (p.1 :: ·))) =
        pure ((if (visited.map g.name).contains (g.name p.2.target) then []
          else (g.wiring.pathsFrom stop n (g.name p.2.target)
            (g.name p.2.target :: visited.map g.name)).map (link g.name p :: ·)).map
              (·.map PlacedLink.slot)) := by
      intro p hp
      have htarget := (s.taken_of_placed (hsub.subset hp)).2
      rw [s.contains_map taken htarget]
      split
      · rfl
      · obtain ⟨target, ht⟩ := htarget
        have reached : ∀ k ∈ p.2.target :: visited, g.Taken k :=
          List.forall_mem_cons.mpr ⟨⟨target, ht⟩, taken⟩
        rw [ih ht reached, name_of_get? ht, List.map_cons, name_of_get? ht]
        simp [link, Function.comp_def]
    rw [hfrom, Option.bind_eq_bind, Option.bind_some, mapM_congr each, List.mapM_pure, ← hlinks,
      List.flatMap_map, List.map_flatMap]
    rfl

theorem Sound.paths (s : g.Sound) {i j : Nat} {start stop : String}
    (hi : g.places.get? i = some start) (hj : g.places.get? j = some stop) :
    g.paths? i j = some ((g.wiring.paths start stop).map (·.map PlacedLink.slot)) := by
  have taken : ∀ k ∈ [i], g.Taken k := List.forall_mem_singleton.mpr ⟨start, hi⟩
  have hpaths := s.pathsFrom hj g.nodeCount hi taken
  rw [← s.counted, List.map_singleton, name_of_get? hi] at hpaths
  unfold paths?
  rw [← s.counted]
  exact hpaths

/-- The ends of links that are there are found by the slots of the links. -/
theorem Sound.targets (s : g.Sound) {links : List PlacedLink}
    (there : ∀ p ∈ links, p ∈ g.wiring.placed) :
    ∃ targets, (links.map PlacedLink.slot).mapM g.target? = some targets ∧
      targets.map g.name = links.map (·.link.target) ∧ ∀ k ∈ targets, g.Taken k := by
  induction links with
  | nil => exact ⟨[], rfl, rfl, by simp⟩
  | cons p links ih =>
    obtain ⟨hp, there⟩ := List.forall_mem_cons.mp there
    obtain ⟨targets, hrun, hnames, taken⟩ := ih there
    rw [placed_wiring] at hp
    obtain ⟨⟨k, wire⟩, hwire, rfl⟩ := List.mem_map.mp hp
    have hfirst : g.target? k = some wire.target := by simp [target?, mem_placed.mp hwire]
    refine ⟨wire.target :: targets, ?_, ?_, ?_⟩
    · rw [List.map_cons, List.mapM_cons, show (link g.name (k, wire)).slot = k from rfl, hfirst,
        hrun]
      rfl
    · rw [List.map_cons, List.map_cons, hnames]
      rfl
    · exact List.forall_mem_cons.mpr ⟨(s.taken_of_placed hwire).2, taken⟩

/-! ## Folding -/

theorem Sound.relink (s : g.Sound) {i : Nat} {start : String} (hi : g.places.get? i = some start)
    {p : Nat × Wire} (taken : g.Taken p.2.target) :
    ∃ g', relink? i g (p.2.target, p.2.data) = some g' ∧ g'.Sound ∧ g'.places = g.places ∧
      g'.wiring = Wiring.relink start g.wiring (link g.name p) := by
  obtain ⟨target, ht⟩ := taken
  obtain ⟨leaving, hfrom, hsub, -, hlinks⟩ := s.wiresFrom hi
  have same : (leaving.any fun q => q.2.target = p.2.target &&
      q.2.data.formatter = p.2.data.formatter &&
        q.2.data.targetHandle = p.2.data.targetHandle) =
      (g.wiring.outgoing start).any fun q => q.link.target = (link g.name p).link.target &&
        q.link.data.formatter = (link g.name p).link.data.formatter &&
          q.link.data.targetHandle = (link g.name p).link.data.targetHandle := by
    rw [← hlinks, List.any_map, Bool.eq_iff_iff, List.any_eq_true, List.any_eq_true]
    refine exists_congr fun q => and_congr_right fun hq => ?_
    have hiff : q.2.target = p.2.target ↔ g.name q.2.target = g.name p.2.target :=
      ⟨congrArg g.name, s.name_inj (s.taken_of_placed (hsub.subset hq)).2 ⟨target, ht⟩⟩
    simp only [Bool.and_eq_true, decide_eq_true_eq, Function.comp_apply]
    rw [hiff]
    rfl
  unfold relink? Wiring.relink
  rw [hfrom, Option.bind_eq_bind, Option.bind_some]
  dsimp only
  rw [same]
  split
  · exact ⟨g, rfl, s, rfl, rfl⟩
  · next hnew =>
    obtain ⟨g', hadd, s', hw, hplaces⟩ := s.addWire hi ht p.2.data
    refine ⟨g', hadd, s', hplaces, ?_⟩
    rw [hw, ← name_of_get? ht]
    rfl

theorem Sound.relinks (s : g.Sound) {i : Nat} {start : String} (hi : g.places.get? i = some start)
    {wires : List (Nat × Wire)} (taken : ∀ p ∈ wires, g.Taken p.2.target) :
    ∃ g', (wires.map fun p => (p.2.target, p.2.data)).foldlM (relink? i) g = some g' ∧ g'.Sound ∧
      g'.places = g.places ∧
      g'.wiring = (wires.map (link g.name)).foldl (Wiring.relink start) g.wiring := by
  induction wires generalizing g with
  | nil => exact ⟨g, rfl, s, rfl, rfl⟩
  | cons p wires ih =>
    obtain ⟨hp, taken⟩ := List.forall_mem_cons.mp taken
    obtain ⟨g₁, hfirst, s₁, hplaces₁, hw₁⟩ := s.relink hi hp
    have hnames : g₁.name = g.name := by unfold name; rw [hplaces₁]
    obtain ⟨g', hrest, s', hplaces, hw⟩ := ih s₁ (hplaces₁ ▸ hi) fun q hq => by
      unfold Taken
      rw [hplaces₁]
      exact taken q hq
    refine ⟨g', ?_, s', hplaces.trans hplaces₁, ?_⟩
    · rw [List.map_cons, List.foldlM_cons, hfirst]
      exact hrest
    · rw [hw, hw₁, hnames]
      rfl

/-- The places that the paths between two nodes pass are found, and in them stands what lies between
the two. -/
theorem Sound.inner (s : g.Sound) {j : Nat} {start stop : String}
    (hj : g.places.get? j = some stop) :
    ∃ targets, ((g.wiring.paths start stop).flatten.map PlacedLink.slot).mapM g.target? = some targets ∧
      (∀ k ∈ targets, g.Taken k) ∧ (Wiring.appendNew [] (targets.filter (· ≠ j))).map g.name =
        Wiring.appendNew [] (g.wiring.between start stop) := by
  have there : ∀ p ∈ (g.wiring.paths start stop).flatten, p ∈ g.wiring.placed := fun p hp =>
    Wiring.placed_of_mem_paths hp
  obtain ⟨targets, htargets, hnames, taken⟩ := s.targets there
  refine ⟨targets, htargets, taken, ?_⟩
  have hinj : ∀ k ∈ targets.filter (· ≠ j), ∀ l ∈ targets.filter (· ≠ j),
      g.name k = g.name l → k = l := fun k hk l hl =>
    s.name_inj (taken k (List.mem_filter.mp hk).1) (taken l (List.mem_filter.mp hl).1)
  have hmap : (targets.filter (· ≠ j)).map g.name = g.wiring.between start stop := by
    rw [Wiring.between_eq, ← hnames, List.filter_map]
    congr 1
    refine List.filter_congr fun k hk => decide_eq_decide.mpr (not_congr ?_)
    obtain ⟨id, hid⟩ := taken k hk
    rw [name_of_get? hid]
    exact s.places_inj hid hj
  rw [Wiring.map_appendNew (by simpa using hinj), hmap]
  rfl

/-- The links of the paths between two nodes stand in slots that are taken. -/
theorem exists_wire_of_mem_paths (g : Numbered) {start stop : String} {k : Nat}
    (hk : k ∈ Wiring.appendNew [] ((g.wiring.paths start stop).flatten.map PlacedLink.slot)) :
    ∃ wire, g.wires.get? k = some wire := by
  obtain ⟨p, hp, rfl⟩ := List.mem_map.mp ((Wiring.mem_appendNew.mp hk).resolve_left (by simp))
  obtain ⟨q, hq, rfl⟩ := List.mem_map.mp (g.placed_wiring ▸ Wiring.placed_of_mem_paths hp)
  exact ⟨q.2, mem_placed.mp hq⟩

/-- Folding a region uses no number that stands for nothing, also where its ends are one node. -/
theorem Sound.fold (s : g.Sound) {i j : Nat} {start stop : String}
    (hi : g.places.get? i = some start) (hj : g.places.get? j = some stop) :
    ∃ g', g.fold? i j stop ((g.wiring.paths start stop).map (·.map PlacedLink.slot)) = some g' ∧
      g'.Sound ∧ g'.wiring = (((g.wiring.cleared start stop).outgoing stop).foldl
        (Wiring.relink start) (g.wiring.cleared start stop)).removeNode stop := by
  obtain ⟨targets, htargets, taken, hinner⟩ := s.inner hj
  let inner := Wiring.appendNew [] (targets.filter (· ≠ j))
  have mem_inner : ∀ {k}, k ∈ inner ↔ k ∈ targets ∧ k ≠ j := by
    simp [inner, Wiring.mem_appendNew]
  obtain ⟨g₁, hfirst, l₁⟩ := s.removeWires (Wiring.nodup_appendNew List.nodup_nil)
    fun _ => g.exists_wire_of_mem_paths
  have taken₁ : ∀ k ∈ inner, g₁.Taken k := by
    intro k hk
    unfold Taken
    rw [l₁.places]
    exact taken k (mem_inner.mp hk).1
  obtain ⟨g₂, hsecond, d₂⟩ := l₁.sound.drops (Wiring.nodup_appendNew List.nodup_nil) taken₁
  have hw₂ : g₂.wiring = g.wiring.cleared start stop := by
    rw [d₂.wiring, l₁.wiring, l₁.name, hinner]
    rfl
  have hi₂ : g₂.places.get? i = some start := by
    have out : i ∉ inner := fun hin => by
      have hmem := hinner ▸ List.mem_map_of_mem (f := g.name) hin
      rw [name_of_get? hi, Wiring.mem_appendNew] at hmem
      exact g.wiring.start_not_mem_between start stop (hmem.resolve_left (by simp))
    rw [d₂.places, if_neg out, l₁.places, hi]
  have hj₂ : g₂.places.get? j = some stop := by
    rw [d₂.places, if_neg fun hin => (mem_inner.mp hin).2 rfl, l₁.places, hj]
  obtain ⟨leaving, hfrom, hsub, -, hlinks⟩ := d₂.sound.wiresFrom hj₂
  obtain ⟨g₃, hthird, s₃, hplaces₃, hw₃⟩ := d₂.sound.relinks hi₂ fun p hp =>
    (d₂.sound.taken_of_placed (hsub.subset hp)).2
  obtain ⟨g₄, hlast, d₄⟩ := s₃.vacate (hplaces₃ ▸ hj₂)
  refine ⟨g₄.forget stop, ?_, d₄.sound, ?_⟩
  · have hsecond : (Wiring.appendNew [] (targets.filter (· ≠ j))).foldlM drop? g₁ = some g₂ := hsecond
    unfold fold?
    rw [← List.map_flatten, htargets]
    simp only [Option.bind_eq_bind, Option.bind_some, hfirst, hsecond, hfrom, hthird, hlast]
    rfl
  · rw [d₄.wiring, hw₃, hlinks, hw₂, List.map_singleton, name_of_get? (hplaces₃ ▸ hj₂)]
    rfl

theorem Sound.compress (s : g.Sound) (start stop : String) :
    ∃ result g', g.compress? start stop = some (result, g') ∧ g'.Sound ∧
      g.wiring.call (.compress start stop) = (result, g'.wiring) := by
  have contains_iff : ∀ id, g.wiring.contains id = true ↔ id ∈ g.ids := by
    simp [Wiring.contains, wiring]
  have absent : ∀ {id}, g.table.get? id = none → g.wiring.contains id = false := by
    intro id h
    rw [Bool.eq_false_iff, Ne, contains_iff, s.mem_ids]
    rintro ⟨i, hi⟩
    cases h.symm.trans ((s.table id i).mpr hi)
  have present : ∀ {id i}, g.table.get? id = some i → g.places.get? i = some id ∧
      id ∈ g.wiring.nodes := fun h =>
    ⟨(s.table _ _).mp h, s.mem_ids.mpr ⟨_, (s.table _ _).mp h⟩⟩
  unfold Wiring.call compress?
  cases hstart : g.table.get? start with
  | none =>
    refine ⟨.error (Wiring.missing start), g, rfl, s, ?_⟩
    simp [Wiring.compress, Wiring.checkEnds, absent hstart, bind, Except.bind]
  | some i =>
    obtain ⟨hi, hstart⟩ := present hstart
    cases hstop : g.table.get? stop with
    | none =>
      have hcontains : g.wiring.contains start = true := (contains_iff start).mpr hstart
      refine ⟨.error (Wiring.missing stop), g, rfl, s, ?_⟩
      simp [Wiring.compress, Wiring.checkEnds, hcontains, absent hstop, bind, Except.bind]
    | some j =>
      obtain ⟨hj, hstop⟩ := present hstop
      dsimp only
      rw [Wiring.compress_eq hstart hstop, s.paths hi hj, Option.bind_eq_bind, Option.bind_some]
      by_cases hnone : g.wiring.paths start stop = []
      · exact ⟨.error (.unmatchedAggregator stop), g, by simp [hnone], s, by simp [hnone]⟩
      · obtain ⟨g', hfold, s', hw⟩ := s.fold hi hj
        rw [if_neg (by simpa using hnone), if_neg hnone, hfold, ← hw]
        exact ⟨.ok (), g', rfl, s', rfl⟩

/-! ## Calls -/

theorem Sound.call (s : g.Sound) (c : Call) :
    ∃ result g', g.call? c = some (result, g') ∧ g'.Sound ∧ g.wiring.call c = (result, g'.wiring) := by
  cases c with
  | addNode id =>
    obtain ⟨s', hw, -⟩ := s.addNode id
    exact ⟨.ok (), _, rfl, s', by rw [hw]; rfl⟩
  | addLink source target data =>
    obtain ⟨g', hadd, s', hw⟩ := s.addLink source target data
    exact ⟨.ok (), g', by rw [call?, hadd]; rfl, s', by rw [hw]; rfl⟩
  | compress start stop => exact s.compress start stop

theorem Sound.calls (s : g.Sound) (cs : List Call) :
    ∃ results g', g.calls? cs = some (results, g') ∧ g'.Sound ∧
      g.wiring.calls cs = (results, g'.wiring) := by
  induction cs generalizing g with
  | nil => exact ⟨[], g, rfl, s, rfl⟩
  | cons c cs ih =>
    obtain ⟨result, g₁, hfirst, s₁, hw₁⟩ := s.call c
    obtain ⟨results, g', hrest, s', hw⟩ := ih s₁
    refine ⟨result :: results, g', ?_, s', ?_⟩
    · simp [calls?, hfirst, hrest]
    · simp [Wiring.calls, hw₁, hw]

/-! ## Agreement -/

/-- Whether the table of the ids and the graph of places and wires agree. -/
structure Consistent (g : Numbered) : Prop where
  nodup : g.ids.Nodup
  counted : g.ids.length = g.nodeCount
  contains : ∀ id, g.contains id = true ↔ id ∈ g.ids
  joins : ∀ p ∈ g.placed, ∃ a ∈ g.ids, ∃ b ∈ g.ids,
    g.places.get? p.2.source = some a ∧ g.places.get? p.2.target = some b
  enters : ∃ lists : List (List (String × LinkData)),
    g.ids.mapM g.incoming? = some (lists.map .ok) ∧
    (lists.map List.length).sum = g.linkCount

theorem linkCount_eq (g : Numbered) : g.linkCount = g.wiring.placed.length := by
  have hlinks : g.wiring.links = (g.wires.cells.filterMap id).map (Wire.named g.name) := by
    unfold Wiring.links wiring Slab.map
    rw [List.filterMap_map, List.map_filterMap]
    rfl
  unfold linkCount Slab.count
  rw [← List.length_map (Wire.named g.name), ← hlinks, Wiring.links_eq, List.length_map]

theorem Sound.consistent (s : g.Sound) : g.Consistent := by
  refine ⟨s.nodup, s.counted, fun id => Entries.contains_iff g.table id, fun p hp => ?_, ?_⟩
  · obtain ⟨⟨a, ha⟩, ⟨b, hb⟩⟩ := s.taken_of_placed hp
    exact ⟨a, s.mem_ids.mpr ⟨_, ha⟩, b, s.mem_ids.mpr ⟨_, hb⟩, ha, hb⟩
  · let entering := fun id => (g.wiring.incoming id).map fun p => (p.link.source, p.link.data)
    have covered : ∀ p ∈ g.wiring.placed, p.link.target ∈ g.ids := by
      intro p hp
      obtain ⟨q, hq, rfl⟩ := List.mem_map.mp (g.placed_wiring ▸ hp)
      obtain ⟨b, hb⟩ := (s.taken_of_placed hq).2
      exact s.mem_ids.mpr ⟨_, (name_of_get? hb).symm ▸ hb⟩
    refine ⟨g.ids.map entering, ?_, ?_⟩
    · rw [mapM_congr (g := fun id => pure (.ok (entering id))) fun id hid => s.incoming hid,
        List.mapM_pure, List.map_map]
      rfl
    · rw [linkCount_eq, ← (perm_flatMap_filter (fun p => p.link.target) s.nodup covered).length_eq,
        List.length_flatMap, List.map_map]
      congr 1
      exact List.map_congr_left fun id _ => List.length_map _

/-- Whatever is called on a wiring that is kept by number, no number is used that stands for
nothing, the calls come to what they come to on the wiring itself, its table and its graph agree in
the end, and ids that are there all along keep their order. -/
theorem calls_consistent (cs : List Call) :
    ∃ results g, calls? {} cs = some (results, g) ∧ Wiring.calls {} cs = (results, g.wiring) ∧
      g.Consistent ∧
      ∀ more, ∃ results' g', g.calls? more = some (results', g') ∧
        ∀ a b, g.wiring.Stays a more → g.wiring.Stays b more →
          g.ids.idxOf a < g.ids.idxOf b → g'.ids.idxOf a < g'.ids.idxOf b := by
  obtain ⟨results, g, hrun, s, hw⟩ := sound_empty.calls cs
  have built : g.wiring.Built := by
    have h := Wiring.Built.empty.calls cs
    rwa [show Wiring.calls {} cs = _ from hw] at h
  refine ⟨results, g, hrun, hw, s.consistent, fun more => ?_⟩
  obtain ⟨results', g', hrun', -, hw'⟩ := s.calls more
  refine ⟨results', g', hrun', fun a b ha hb h => ?_⟩
  have hlt := built.idxOf_calls_lt ha hb h
  rwa [hw'] at hlt

/-- A region behind which a node is linked to itself is folded, and a new node takes one of the
places that became vacant. -/
def reused : List Call :=
  [.addLink "a" "b" {}, .addLink "b" "c" {}, .addLink "b" "c" {}, .addLink "c" "d" {},
    .addLink "d" "d" {}, .compress "d" "a", .compress "a" "c", .addLink "e" "a" {}]

theorem calls_consistent_reused :
    ∃ results g, calls? {} reused = some (results, g) ∧ g.Consistent ∧
      results.map Except.toBool = [true, true, true, true, true, false, true, true] ∧
      g.ids = ["a", "d", "e"] ∧ g.places.cells = [some "a", none, some "e", some "d"] ∧
      ∃ results' g', g.calls? [.compress "a" "d", .addNode "d"] = some (results', g') ∧
        g'.ids.idxOf "a" < g'.ids.idxOf "e" := by
  obtain ⟨results, g, hrun, hw, consistent, hmore⟩ := calls_consistent reused
  have hreads : (calls? {} reused).map
      (fun r => (r.1.map Except.toBool, r.2.ids, r.2.places.cells)) =
      some ([true, true, true, true, true, false, true, true], ["a", "d", "e"],
        [some "a", none, some "e", some "d"]) := by decide +kernel
  rw [hrun] at hreads
  obtain ⟨hresults, hids, hplaces⟩ := by simpa using hreads
  obtain ⟨results', g', hrun', order⟩ := hmore [.compress "a" "d", .addNode "d"]
  have hwiring : g.wiring = (Wiring.calls {} reused).2 := by rw [hw]
  have stays : ∀ id ∈ ["a", "e"], g.wiring.Stays id [.compress "a" "d", .addNode "d"] := by
    rw [hwiring]
    simp only [Wiring.Stays]
    decide +kernel
  refine ⟨results, g, hrun, consistent, hresults, hids, hplaces, results', g', hrun', ?_⟩
  exact order "a" "e" (stays _ (by simp)) (stays _ (by simp)) (by simp [hids])

end Numbered

end WorkflowCompiler
