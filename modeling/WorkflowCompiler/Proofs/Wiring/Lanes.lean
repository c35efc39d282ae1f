import Mathlib.Data.List.Nodup
import WorkflowCompiler.Proofs.Wiring.Regions

/-!
# Lanes between two nodes

Where the connections between two nodes form lanes, chains that share no node and that nothing else
enters or leaves, the paths between the two nodes are exactly the lanes. Folding such a region takes
the lanes away and leaves everything else as it is.
-/
namespace WorkflowCompiler

namespace Wiring

/-- Every walk that meets no node twice is found when there is room for its links. -/
theorem mem_pathsFrom_of_walk {w : Wiring} {stop here : String} {path : List PlacedLink}
    (walk : w.Walk stop here path) {n : Nat} (room : path.length ≤ n) {visited : List String}
    (fresh : ∀ p ∈ path, p.link.target ∉ visited)
    (simple : (path.map fun p => p.link.target).Nodup) :
    path ∈ w.pathsFrom stop n here visited := by
  induction walk generalizing n visited with
  | here =>
    rw [pathsFrom_eq, if_pos rfl]
    exact List.mem_singleton_self _
  | @along p path placed ne rest ih =>
    rw [pathsFrom_eq, if_neg ne]
    cases n with
    | zero => simp at room
    | succ n =>
      obtain ⟨hp, hsimple⟩ := List.nodup_cons.mp simple
      have hfresh : ∀ q ∈ path, q.link.target ∉ p.link.target :: visited := by
        intro q hq hmem
        rcases List.mem_cons.mp hmem with he | hmem
        · exact hp (List.mem_map.mpr ⟨q, hq, he⟩)
        · exact fresh q (List.mem_cons_of_mem _ hq) hmem
      have hrest := ih (Nat.le_of_succ_le_succ room) hfresh hsimple
      have hvisited : p.link.target ∉ visited := fresh p List.mem_cons_self
      refine List.mem_flatMap.mpr ⟨p, mem_outgoing.mpr ⟨placed, rfl⟩, ?_⟩
      rw [if_neg (by simpa using hvisited)]
      exact List.mem_map_of_mem hrest

/-- Connections that lead in a row from one node to another. -/
def Chained : String → String → List Arrow → Prop
  | here, stop, [] => here = stop
  | here, stop, a :: rest => a.source = here ∧ Chained a.target stop rest

/-- A chain passes through the same nodes, read as sources or as targets. -/
theorem Chained.targets {here stop : String} {lane : List Arrow} (h : Chained here stop lane) :
    here :: lane.map Arrow.target = lane.map Arrow.source ++ [stop] := by
  induction lane generalizing here with
  | nil =>
    obtain rfl : here = stop := h
    rfl
  | cons a rest ih =>
    obtain ⟨hsource, hrest⟩ := h
    rw [List.map_cons, List.map_cons, ih hrest, hsource]
    rfl

theorem Chained.walk {w : Wiring} {here stop : String} {path : List PlacedLink}
    (h : Chained here stop (path.map PlacedLink.arrow)) (placed : ∀ p ∈ path, p ∈ w.placed)
    (ne : ∀ p ∈ path, p.link.source ≠ stop) : w.Walk stop here path := by
  induction path generalizing here with
  | nil =>
    obtain rfl : here = stop := h
    exact .here
  | cons p path ih =>
    obtain ⟨hsource, hrest⟩ := h
    obtain rfl : p.link.source = here := hsource
    have hwalk := ih hrest (fun q hq => placed q (List.mem_cons_of_mem _ hq))
      fun q hq => ne q (List.mem_cons_of_mem _ hq)
    exact .along (placed p List.mem_cons_self) (ne p List.mem_cons_self) hwalk

theorem incoming_perm {w : Wiring} {arrows : List Arrow} (perm : w.arrows.Perm arrows)
    (id : String) :
    ((w.incoming id).map PlacedLink.arrow).Perm (arrows.filter fun a => a.target = id) := by
  have hfilter : (w.incoming id).map PlacedLink.arrow = w.arrows.filter fun a => a.target = id := by
    unfold incoming Wiring.arrows
    rw [List.filter_map]
    rfl
  exact hfilter ▸ perm.filter _

/-- Where no two connections enter the same node, each is alone in entering its own. -/
theorem incoming_of_nodup {w : Wiring} {arrows : List Arrow} (perm : w.arrows.Perm arrows)
    (nodup : (arrows.map Arrow.target).Nodup) {a : Arrow} (ha : a ∈ arrows) :
    ∃ p, w.incoming a.target = [p] ∧ p.arrow = a := by
  have hsole : arrows.filter (fun b => b.target = a.target) = [a] := by
    refine List.perm_singleton.mp ((List.perm_ext_iff_of_nodup ?_ (by simp)).mpr fun b => ?_)
    · exact (List.Nodup.of_map _ nodup).filter _
    · rw [List.mem_filter, decide_eq_true_eq, List.mem_singleton]
      constructor
      · exact fun hb => List.inj_on_of_nodup_map nodup hb.1 ha hb.2
      · rintro rfl
        exact ⟨ha, rfl⟩
  have hperm := incoming_perm perm a.target
  rw [hsole, List.perm_singleton] at hperm
  obtain ⟨p, hp, harrow⟩ := List.map_eq_singleton_iff.mp hperm
  exact ⟨p, hp, harrow⟩

theorem incoming_eq_nil {w : Wiring} {arrows : List Arrow} (perm : w.arrows.Perm arrows)
    {id : String} (h : id ∉ arrows.map Arrow.target) : w.incoming id = [] := by
  have hnone : arrows.filter (fun a => a.target = id) = [] := by
    refine List.filter_eq_nil_iff.mpr fun a ha => ?_
    have hne : a.target ≠ id := fun he => h (he ▸ List.mem_map_of_mem ha)
    simpa using hne
  have hperm := incoming_perm perm id
  rw [hnone, List.perm_nil] at hperm
  exact List.map_eq_nil_iff.mp hperm

/-- Connections of a wiring stand in slots. -/
theorem exists_placed {w : Wiring} {lane : List Arrow} (h : ∀ a ∈ lane, a ∈ w.arrows) :
    ∃ path : List PlacedLink, path.map PlacedLink.arrow = lane ∧ ∀ p ∈ path, p ∈ w.placed := by
  induction lane with
  | nil => exact ⟨[], rfl, by simp⟩
  | cons a lane ih =>
    obtain ⟨p, hp, rfl⟩ := List.mem_map.mp (h a List.mem_cons_self)
    obtain ⟨path, hpath, hplaced⟩ := ih fun b hb => h b (List.mem_cons_of_mem _ hb)
    exact ⟨p :: path, by rw [List.map_cons, hpath], by simpa [hp] using hplaced⟩

/-- What is new in many equal lists is new in the first of them. -/
theorem appendNew_flatMap {α β : Type} [DecidableEq α] {f : β → List α} {xs : List β}
    {common : List α} (some : xs ≠ []) (same : ∀ x ∈ xs, f x = common) (nodup : common.Nodup) :
    appendNew [] (xs.flatMap f) = common := by
  have hold : ∀ more : List α, more ⊆ common → appendNew common more = common := by
    intro more
    induction more with
    | nil => exact fun _ => rfl
    | cons x more ih =>
      intro hsub
      have hx : x ∈ common := hsub List.mem_cons_self
      have hrest := ih fun y hy => hsub (List.mem_cons_of_mem _ hy)
      unfold appendNew at hrest ⊢
      rw [List.foldl_cons, if_pos hx, hrest]
  cases xs with
  | nil => exact absurd rfl some
  | cons x xs =>
    have hfirst : appendNew [] (f x) = common := by
      rw [same x List.mem_cons_self]
      exact appendNew_eq_of_nodup nodup
    rw [List.flatMap_cons, appendNew_append, hfirst]
    refine hold _ fun y hy => ?_
    obtain ⟨z, hz, hy⟩ := List.mem_flatMap.mp hy
    exact same z (List.mem_cons_of_mem _ hz) ▸ hy

/-- The nodes that a lane passes through. -/
def passed (lane : List Arrow) : List String := lane.tail.map Arrow.source

/-- The nodes that lanes pass through. -/
def passedAll (lanes : List (List Arrow)) : List String := lanes.flatMap passed

theorem mem_passedAll {lanes : List (List Arrow)} {lane : List Arrow} (hl : lane ∈ lanes)
    {id : String} (hid : id ∈ passed lane) : id ∈ passedAll lanes :=
  List.mem_flatMap.mpr ⟨lane, hl, hid⟩

/-- All connections of a wiring either lie on lanes between two nodes or keep away from them. -/
structure Laned (w : Wiring) (start stop : String) (lanes : List (List Arrow))
    (others : List Arrow) : Prop where
  valid : w.Valid
  ends : start ∈ w.nodes ∧ stop ∈ w.nodes
  arrows : w.arrows.Perm (lanes.flatten ++ others)
  chained : ∀ lane ∈ lanes, Chained start stop lane
  nodup : (start :: stop :: passedAll lanes).Nodup
  apart : ∀ a ∈ others, a.source ≠ start ∧ a.target ≠ stop ∧ a.source ∉ passedAll lanes ∧
    a.target ∉ passedAll lanes

namespace Laned

variable {w : Wiring} {start stop : String} {lanes : List (List Arrow)} {others : List Arrow}
  (h : w.Laned start stop lanes others)

include h

theorem ne : start ≠ stop := by
  have hstart := (List.nodup_cons.mp h.nodup).1
  exact fun he => hstart (he ▸ List.mem_cons_self)

theorem start_not_passed : start ∉ passedAll lanes := fun hm =>
  (List.nodup_cons.mp h.nodup).1 (List.mem_cons_of_mem _ hm)

theorem stop_not_passed : stop ∉ passedAll lanes :=
  (List.nodup_cons.mp (List.nodup_cons.mp h.nodup).2).1

theorem nodup_passed {lane : List Arrow} (hl : lane ∈ lanes) : (passed lane).Nodup := by
  have hall := (List.nodup_cons.mp (List.nodup_cons.mp h.nodup).2).2
  exact (List.nodup_flatMap.mp hall).1 lane hl

/-- A lane starts with a connection that leaves the first node. -/
theorem exists_first {lane : List Arrow} (hl : lane ∈ lanes) :
    ∃ first rest, lane = first :: rest ∧ first.source = start ∧ Chained first.target stop rest := by
  have hchain := h.chained lane hl
  cases lane with
  | nil => exact absurd hchain h.ne
  | cons first rest => exact ⟨first, rest, rfl, hchain.1, hchain.2⟩

/-- No connection of a lane leaves the last node. -/
theorem source_ne_stop {lane : List Arrow} (hl : lane ∈ lanes) {a : Arrow} (ha : a ∈ lane) :
    a.source ≠ stop := by
  obtain ⟨first, rest, rfl, hfirst, -⟩ := h.exists_first hl
  rcases List.mem_cons.mp ha with rfl | ha
  · exact fun he => h.ne (hfirst.symm.trans he)
  · have hpassed : a.source ∈ passed (first :: rest) := List.mem_map_of_mem ha
    exact fun he => h.stop_not_passed (he ▸ mem_passedAll hl hpassed)

theorem targets {lane : List Arrow} (hl : lane ∈ lanes) :
    lane.map Arrow.target = passed lane ++ [stop] := by
  obtain ⟨first, rest, rfl, -⟩ := h.exists_first hl
  have htargets := (h.chained _ hl).targets
  rw [List.map_cons (f := Arrow.source), List.cons_append] at htargets
  exact (List.cons.inj htargets).2

theorem targets_path {path : List PlacedLink} (hl : path.map PlacedLink.arrow ∈ lanes) :
    path.map (fun p => p.link.target) = passed (path.map PlacedLink.arrow) ++ [stop] := by
  rw [← h.targets hl, List.map_map]
  rfl

theorem mem_arrows {lane : List Arrow} (hl : lane ∈ lanes) {a : Arrow} (ha : a ∈ lane) :
    a ∈ w.arrows :=
  h.arrows.mem_iff.mpr (List.mem_append_left _ (List.mem_flatten.mpr ⟨lane, hl, ha⟩))

/-- A connection that leaves the first node starts a lane. -/
theorem lane_of_start {a : Arrow} (ha : a ∈ w.arrows) (hs : a.source = start) :
    ∃ rest, a :: rest ∈ lanes := by
  rcases List.mem_append.mp (h.arrows.mem_iff.mp ha) with hin | hin
  · obtain ⟨lane, hl, hal⟩ := List.mem_flatten.mp hin
    obtain ⟨first, rest, rfl, -⟩ := h.exists_first hl
    rcases List.mem_cons.mp hal with rfl | hal
    · exact ⟨rest, hl⟩
    · have hpassed : a.source ∈ passed (first :: rest) := List.mem_map_of_mem hal
      exact absurd (hs ▸ mem_passedAll hl hpassed) h.start_not_passed
  · exact absurd hs (h.apart a hin).1

/-- Of each node that is passed, one connection leaves. -/
theorem eq_of_source {a b : Arrow} (ha : a ∈ lanes.flatMap List.tail) (hb : b ∈ w.arrows)
    (hs : b.source = a.source) : b = a := by
  have hsources : (lanes.flatMap List.tail).map Arrow.source = passedAll lanes := by
    rw [List.map_flatMap]
    rfl
  have hpassed : a.source ∈ passedAll lanes := hsources ▸ List.mem_map_of_mem ha
  have hnodup : ((lanes.flatMap List.tail).map Arrow.source).Nodup := by
    rw [hsources]
    exact (List.nodup_cons.mp (List.nodup_cons.mp h.nodup).2).2
  have hin : b ∈ lanes.flatMap List.tail := by
    rcases List.mem_append.mp (h.arrows.mem_iff.mp hb) with hin | hin
    · obtain ⟨lane, hl, hbl⟩ := List.mem_flatten.mp hin
      obtain ⟨first, rest, rfl, hfirst, -⟩ := h.exists_first hl
      rcases List.mem_cons.mp hbl with rfl | hbl
      · exact absurd (hfirst ▸ hs ▸ hpassed) h.start_not_passed
      · exact List.mem_flatMap.mpr ⟨first :: rest, hl, hbl⟩
    · exact absurd (hs ▸ hpassed) (h.apart b hin).2.2.1
  exact List.inj_on_of_nodup_map hnodup hin ha hs

/-- A walk that has entered a lane stays on it. -/
theorem stays {here : String} {path : List PlacedLink} (walk : w.Walk stop here path)
    {rest : List Arrow} (chained : Chained here stop rest)
    (sub : ∀ a ∈ rest, a ∈ lanes.flatMap List.tail) : path.map PlacedLink.arrow = rest := by
  induction walk generalizing rest with
  | here =>
    cases rest with
    | nil => rfl
    | cons a rest =>
      have hmem := List.mem_flatMap.mp (sub a List.mem_cons_self)
      obtain ⟨lane, hl, ha⟩ := hmem
      have hpassed : a.source ∈ passed lane := List.mem_map_of_mem ha
      exact absurd (chained.1 ▸ mem_passedAll hl hpassed) h.stop_not_passed
  | @along p path placed ne _ ih =>
    cases rest with
    | nil => exact absurd chained ne
    | cons a rest =>
      obtain ⟨hsource, hrest⟩ := chained
      have hp : p.arrow ∈ w.arrows := List.mem_map_of_mem placed
      have he : p.arrow = a := h.eq_of_source (sub a List.mem_cons_self) hp hsource.symm
      have hchain : Chained p.link.target stop rest := by
        rw [← he] at hrest
        exact hrest
      rw [List.map_cons, he, ih hchain fun b hb => sub b (List.mem_cons_of_mem _ hb)]

/-- A run through a lane comes to no node twice, nor back to the first one. -/
theorem simple {path : List PlacedLink} (hl : path.map PlacedLink.arrow ∈ lanes) :
    (path.map fun p => p.link.target).Nodup ∧ ∀ p ∈ path, p.link.target ∉ [start] := by
  rw [h.targets_path hl]
  constructor
  · refine List.nodup_append.mpr ⟨h.nodup_passed hl, by simp, ?_⟩
    intro a ha b hb he
    obtain rfl := List.mem_singleton.mp hb
    exact h.stop_not_passed (he ▸ mem_passedAll hl ha)
  · intro p hp hmem
    have hin : p.link.target ∈ path.map fun p => p.link.target := List.mem_map_of_mem hp
    rw [h.targets_path hl, List.mem_singleton.mp hmem] at hin
    rcases List.mem_append.mp hin with hin | hin
    · exact h.start_not_passed (mem_passedAll hl hin)
    · exact h.ne (List.mem_singleton.mp hin)

/-- The paths between the two nodes are the lanes. -/
theorem mem_paths {path : List PlacedLink} :
    path ∈ w.paths start stop ↔ path.map PlacedLink.arrow ∈ lanes ∧ ∀ p ∈ path, p ∈ w.placed := by
  constructor
  · intro hpath
    have walk := (walk_of_mem_pathsFrom hpath).1
    refine ⟨?_, walk.placed⟩
    cases walk with
    | here => exact absurd rfl h.ne
    | @along p path placed ne rest =>
      have hp : p.arrow ∈ w.arrows := List.mem_map_of_mem placed
      obtain ⟨lane, hl⟩ := h.lane_of_start hp rfl
      have hchain := (h.chained _ hl).2
      have hstays := h.stays rest hchain fun a ha => List.mem_flatMap.mpr ⟨_, hl, ha⟩
      rw [List.map_cons, hstays]
      exact hl
  · rintro ⟨hl, placed⟩
    have walk := (h.chained _ hl).walk placed fun p hp =>
      h.source_ne_stop hl (List.mem_map_of_mem hp)
    obtain ⟨hsimple, hfresh⟩ := h.simple hl
    have hroom : path.length ≤ w.nodes.length := by
      have hsub : (path.map fun p => p.link.target) ⊆ w.nodes := by
        intro id hid
        obtain ⟨p, hp, rfl⟩ := List.mem_map.mp hid
        exact h.valid.target p (placed p hp)
      simpa using (hsimple.subperm hsub).length_le
    exact mem_pathsFrom_of_walk walk hroom hfresh hsimple

theorem exists_path {lane : List Arrow} (hl : lane ∈ lanes) :
    ∃ path ∈ w.paths start stop, path.map PlacedLink.arrow = lane := by
  obtain ⟨path, rfl, placed⟩ := exists_placed fun a ha => h.mem_arrows hl ha
  exact ⟨path, h.mem_paths.mpr ⟨hl, placed⟩, rfl⟩

theorem inner_eq {path : List PlacedLink} (hl : path.map PlacedLink.arrow ∈ lanes) :
    inner stop path = passed (path.map PlacedLink.arrow) := by
  unfold inner
  rw [h.targets_path hl, List.filter_append]
  have hkeep : (passed (path.map PlacedLink.arrow)).filter (fun id => id ≠ stop) =
      passed (path.map PlacedLink.arrow) := by
    refine List.filter_eq_self.mpr fun id hid => ?_
    have hne : id ≠ stop := fun he => h.stop_not_passed (he ▸ mem_passedAll hl hid)
    simpa using hne
  rw [hkeep]
  simp

/-- The region between the two nodes is what the lanes pass through. -/
theorem mem_between {id : String} : id ∈ w.between start stop ↔ id ∈ passedAll lanes := by
  unfold between passedAll
  rw [List.mem_flatMap, List.mem_flatMap]
  constructor
  · rintro ⟨path, hpath, hid⟩
    have hl := (h.mem_paths.mp hpath).1
    exact ⟨_, hl, h.inner_eq hl ▸ hid⟩
  · rintro ⟨lane, hl, hid⟩
    obtain ⟨path, hpath, rfl⟩ := h.exists_path hl
    exact ⟨path, hpath, (h.inner_eq hl).symm ▸ hid⟩

/-! ## Grouping -/

omit h in
/-- The key of the first connection of a lane. -/
theorem pathKey_eq {path : List PlacedLink} {first : Arrow} {rest : List Arrow}
    (hpath : path.map PlacedLink.arrow = first :: rest) : pathKey path = first.data.key := by
  cases path with
  | nil => cases hpath
  | cons p path =>
    obtain ⟨rfl, -⟩ := List.cons.inj hpath
    rfl

/-- When no two lanes share a key, under each key stands what its lane passes through. -/
theorem get?_group {first : Arrow} {rest : List Arrow} (hl : first :: rest ∈ lanes)
    (alone : ∀ a as, a :: as ∈ lanes → a.data.key = first.data.key → a :: as = first :: rest) :
    (group stop (w.paths start stop)).get? first.data.key = some (passed (first :: rest)) := by
  have hall : ∀ path ∈ keyed (w.paths start stop) first.data.key,
      inner stop path = passed (first :: rest) := by
    intro path hpath
    obtain ⟨hpath, hkey⟩ := List.mem_filter.mp hpath
    have hin := (h.mem_paths.mp hpath).1
    obtain ⟨a, as, hlane, -⟩ := h.exists_first hin
    rw [pathKey_eq hlane] at hkey
    rw [h.inner_eq hin, hlane, alone a as (hlane ▸ hin) (by simpa using hkey)]
  obtain ⟨path, hpath, hlane⟩ := h.exists_path hl
  have hkeyed : path ∈ keyed (w.paths start stop) first.data.key :=
    List.mem_filter.mpr ⟨hpath, by simpa using pathKey_eq hlane⟩
  rw [Wiring.get?_group, if_neg (List.ne_nil_of_mem hkeyed),
    appendNew_flatMap (List.ne_nil_of_mem hkeyed) hall (h.nodup_passed hl)]

theorem get?_group_of_not_mem {key : String}
    (hkey : ∀ a as, a :: as ∈ lanes → a.data.key ≠ key) :
    (group stop (w.paths start stop)).get? key = none := by
  rw [Wiring.get?_group, if_pos]
  refine List.filter_eq_nil_iff.mpr fun path hpath => ?_
  have hin := (h.mem_paths.mp hpath).1
  obtain ⟨a, as, hlane, -⟩ := h.exists_first hin
  rw [pathKey_eq hlane]
  simpa using hkey a as (hlane ▸ hin)

/-! ## Folding -/

theorem target_mem {lane : List Arrow} (hl : lane ∈ lanes) {a : Arrow} (ha : a ∈ lane) :
    a.target ∈ stop :: passedAll lanes := by
  have htarget : a.target ∈ lane.map Arrow.target := List.mem_map_of_mem ha
  rw [h.targets hl] at htarget
  rcases List.mem_append.mp htarget with hin | hin
  · exact List.mem_cons_of_mem _ (mem_passedAll hl hin)
  · exact List.mem_singleton.mp hin ▸ List.mem_cons_self

/-- What paths consist of ends in the region or at its last node. -/
theorem target_mem_of_paths {p : PlacedLink} (hp : p ∈ (w.paths start stop).flatten) :
    p.link.target ∈ stop :: passedAll lanes := by
  simpa only [List.mem_cons, h.mem_between] using target_of_mem_paths hp

/-- Clearing a region takes all links away that leave its first node. -/
theorem outgoing_start_cleared : (w.cleared start stop).outgoing start = [] := by
  refine List.eq_nil_iff_forall_not_mem.mpr fun p hp => ?_
  obtain ⟨hp, hsource⟩ := mem_outgoing.mp hp
  obtain ⟨hp, hflat, -, htarget⟩ := mem_placed_cleared.mp hp
  obtain ⟨rest, hl⟩ := h.lane_of_start (List.mem_map_of_mem hp) hsource
  rw [h.mem_between] at htarget
  cases rest with
  | nil =>
    have hpath : [p] ∈ w.paths start stop := h.mem_paths.mpr ⟨hl, by simpa using hp⟩
    exact hflat (List.mem_flatten.mpr ⟨[p], hpath, List.mem_cons_self⟩)
  | cons b rest =>
    have hb : b.source ∈ passed (p.arrow :: b :: rest) := List.mem_cons_self
    have hchain : b.source = p.link.target := (h.chained _ hl).2.1
    rw [hchain] at hb
    exact htarget (mem_passedAll hl hb)

/-- Clearing a region keeps all links that leave its last node. -/
theorem outgoing_stop_cleared : (w.cleared start stop).outgoing stop = w.outgoing stop := by
  unfold outgoing
  rw [placed_cleared, List.filter_filter]
  refine List.filter_congr fun p hp => ?_
  by_cases hs : p.link.source = stop
  · have hother : p.arrow ∈ others := by
      rcases List.mem_append.mp (h.arrows.mem_iff.mp (List.mem_map_of_mem hp)) with hin | hin
      · obtain ⟨lane, hl, hal⟩ := List.mem_flatten.mp hin
        exact absurd hs (h.source_ne_stop hl hal)
      · exact hin
    obtain ⟨-, htarget, hsource, htargets⟩ := h.apart _ hother
    have hflat : p ∉ (w.paths start stop).flatten := fun hflat =>
      (List.mem_cons.mp (h.target_mem_of_paths hflat)).elim htarget htargets
    have hleft : p.link.source ∉ w.between start stop := h.mem_between.not.mpr hsource
    have hright : p.link.target ∉ w.between start stop := h.mem_between.not.mpr htargets
    simp only [hs, hflat, hright, hs ▸ hleft]
    decide
  · simp [hs]

theorem spared_perm :
    (w.spared start stop).Perm (others.filter fun a => a.source ≠ stop) := by
  have hspared : w.spared start stop = w.arrows.filter fun a =>
      a.source ∉ stop :: passedAll lanes ∧ a.target ∉ stop :: passedAll lanes := by
    unfold spared Wiring.arrows
    rw [List.filter_map]
    congr 1
    refine List.filter_congr fun p hp => ?_
    have hmem : ∀ id, id ∈ stop :: w.between start stop ↔ id ∈ stop :: passedAll lanes := by
      intro id
      rw [List.mem_cons, List.mem_cons, h.mem_between]
    simp only [hmem, Function.comp, PlacedLink.arrow]
    refine decide_eq_decide.mpr ⟨fun hc => hc.2, fun hc => ⟨fun hin => ?_, hc⟩⟩
    exact hc.2 (h.target_mem_of_paths hin)
  rw [hspared]
  refine (h.arrows.filter _).trans ?_
  rw [List.filter_append]
  have hlanes : lanes.flatten.filter (fun a =>
      a.source ∉ stop :: passedAll lanes ∧ a.target ∉ stop :: passedAll lanes) = [] := by
    refine List.filter_eq_nil_iff.mpr fun a ha => ?_
    obtain ⟨lane, hl, hal⟩ := List.mem_flatten.mp ha
    simp only [decide_eq_true_eq, not_and, not_not]
    exact fun _ => h.target_mem hl hal
  have hothers : others.filter (fun a =>
      a.source ∉ stop :: passedAll lanes ∧ a.target ∉ stop :: passedAll lanes) =
      others.filter fun a => a.source ≠ stop := by
    refine List.filter_congr fun a ha => ?_
    obtain ⟨-, htarget, hsource, htargets⟩ := h.apart a ha
    simp [htarget, hsource, htargets]
  rw [hlanes, hothers]
  exact .refl _

end Laned

section Closing

variable {w : Wiring} {start stop : String} {lanes : List (List Arrow)} {out : List Arrow}
  {last : Arrow} (h : w.Laned start stop lanes (out ++ [last]))
  (hout : ∀ a ∈ out, a.source ≠ stop) (hlast : last.source = stop)

include h hout hlast

/-- Where one connection alone leaves the last node, so does one link. -/
theorem Laned.exists_outgoing_stop : ∃ p, w.outgoing stop = [p] ∧ p.arrow = last := by
  have hfilter : (w.outgoing stop).map PlacedLink.arrow =
      w.arrows.filter fun a => a.source = stop := by
    unfold outgoing Wiring.arrows
    rw [List.filter_map]
    rfl
  have hlanes : lanes.flatten.filter (fun a => a.source = stop) = [] := by
    refine List.filter_eq_nil_iff.mpr fun a ha => ?_
    obtain ⟨lane, hl, hal⟩ := List.mem_flatten.mp ha
    simpa using h.source_ne_stop hl hal
  have hrest : out.filter (fun a => a.source = stop) = [] :=
    List.filter_eq_nil_iff.mpr fun a ha => by simpa using hout a ha
  have hone : (w.outgoing stop).map PlacedLink.arrow = [last] := by
    refine List.perm_singleton.mp ?_
    rw [hfilter]
    refine (h.arrows.filter _).trans ?_
    rw [List.filter_append, List.filter_append, hlanes, hrest]
    simp [hlast]
  obtain ⟨p, rest, hp, hlink, hrest⟩ := List.map_eq_cons_iff.mp hone
  obtain rfl := List.map_eq_nil_iff.mp hrest
  exact ⟨p, hp, hlink⟩

/-- Folding a region of lanes hands the one connection that leaves its last node to the first. -/
theorem Laned.compress (some : lanes ≠ []) :
    ∃ w', w.compress start stop = .ok w' ∧ w'.Valid ∧
      (∀ id, id ∈ w'.nodes ↔ id ∈ w.nodes ∧ id ≠ stop ∧ id ∉ passedAll lanes) ∧
      w'.arrows.Perm (out ++ [{ last with source := start }]) := by
  obtain ⟨lane, hl⟩ := List.exists_mem_of_ne_nil lanes some
  obtain ⟨path, hpath, -⟩ := h.exists_path hl
  have hcompress := compress_eq h.ends.1 h.ends.2
  rw [if_neg (List.ne_nil_of_mem hpath)] at hcompress
  have folds := h.valid.folds hcompress
  refine ⟨_, hcompress, folds.valid, fun id => ?_, ?_⟩
  · rw [folds.mem_nodes, h.mem_between]
  · obtain ⟨p, hp, rfl⟩ := h.exists_outgoing_stop hout hlast
    have hsource : p.link.source = stop := hlast
    have htarget : p.link.target ≠ stop := (h.apart p.arrow (by simp)).2.1
    have hstart : start ≠ stop := h.ne
    have hrelink : relink start (w.cleared start stop) p =
        (w.cleared start stop).place start p.link.target p.link.data := by
      unfold relink
      rw [h.outgoing_start_cleared]
      rfl
    have hkeep : out.filter (fun a => a.source ≠ stop) = out :=
      List.filter_eq_self.mpr fun a ha => by simpa using hout a ha
    have vc := h.valid.cleared start stop
    rw [h.outgoing_stop_cleared, hp, List.foldl_cons, List.foldl_nil, hrelink, arrows_removeNode]
    refine ((vc.arrows_place _ _ _).filter _).trans ?_
    rw [List.filter_append, arrows_cleared_filter]
    refine (h.spared_perm.append_right _).trans ?_
    rw [List.filter_append, hkeep]
    simp [hstart, htarget, PlacedLink.arrow, hsource]

end Closing

end Wiring

end WorkflowCompiler
