import WorkflowCompiler.Proofs.Wiring.Regions

/-!
# Links that folding hands on

A fold takes away no link whose two ends stay, and leaves each of them in its slot. What it adds are
links of the last node, handed to the first one: all whose targets stay, but for those that enter
their target in the same way as a link that is there.
-/
namespace WorkflowCompiler

/-- How a link enters its target; the case of a fork that it leaves by does not count. -/
def PlacedLink.way (p : PlacedLink) : String × Option String × Option String :=
  (p.link.target, p.link.data.formatter, p.link.data.targetHandle)

theorem PlacedLink.way_eq_iff {p q : PlacedLink} :
    q.way = p.way ↔ q.link.target = p.link.target ∧ q.link.data.formatter = p.link.data.formatter ∧
      q.link.data.targetHandle = p.link.data.targetHandle := by
  simp [way]

namespace Wiring

theorem way_of_handed {p q : PlacedLink} {start : String} (h : p.arrow = handed start q) :
    p.link.source = start ∧ p.way = q.way := by
  obtain ⟨hs, ht, hd⟩ := Arrow.mk.inj h
  exact ⟨hs, by simp [PlacedLink.way, ht, hd]⟩

/-- The links of a wiring stand in the order of their slots. -/
theorem pairwise_placed (w : Wiring) : w.placed.Pairwise fun p q => p.slot < q.slot := by
  have main : ∀ (slots : List (Option Link)) (k : Nat),
      (placedFrom k slots).Pairwise fun p q => p.slot < q.slot := by
    intro slots
    induction slots with
    | nil => exact fun _ => .nil
    | cons slot slots ih =>
      intro k
      cases slot with
      | none => exact ih (k + 1)
      | some link => exact .cons (fun p hp => le_slot_of_mem_placedFrom hp) (ih (k + 1))
  exact main w.slots 0

/-- Linking a node in the way of another link adds the link unless there is one like it. -/
theorem relink_eq (start : String) (w : Wiring) (q : PlacedLink) :
    (relink start w q = w ∧ ∃ p ∈ w.outgoing start, p.way = q.way) ∨
      relink start w q = w.place start q.link.target q.link.data ∧
        ∀ p ∈ w.outgoing start, p.way ≠ q.way := by
  unfold relink
  split
  · next h =>
    obtain ⟨p, hp, hway⟩ := List.any_eq_true.mp h
    exact .inl ⟨rfl, p, hp, PlacedLink.way_eq_iff.mpr (by simpa [and_assoc] using hway)⟩
  · next h =>
    refine .inr ⟨rfl, fun p hp hway => h (List.any_eq_true.mpr ⟨p, hp, ?_⟩)⟩
    simpa [and_assoc] using PlacedLink.way_eq_iff.mp hway

/-- What linking a node in the ways of these links comes to. -/
structure Relinked (w : Wiring) (start : String) (these : List PlacedLink) (w' : Wiring) :
    Prop where
  keeps : ∀ p ∈ w.placed, p ∈ w'.placed
  adds : ∀ p ∈ w'.placed, p ∈ w.placed ∨ ∃ q ∈ these, p.arrow = handed start q
  covers : ∀ q ∈ these, ∃ p ∈ w'.outgoing start, p.way = q.way
  apart : ∀ p ∈ w'.placed, p ∉ w.placed → ∀ q ∈ w'.outgoing start, q.way = p.way → q = p

theorem Relinked.outgoing {w w' : Wiring} {start : String} {these : List PlacedLink}
    (h : Relinked w start these w') {p : PlacedLink} (hp : p ∈ w.outgoing start) :
    p ∈ w'.outgoing start :=
  mem_outgoing.mpr ⟨h.keeps p (mem_outgoing.mp hp).1, (mem_outgoing.mp hp).2⟩

theorem relinked_nil (w : Wiring) (start : String) : Relinked w start [] w where
  keeps := fun _ hp => hp
  adds := fun _ hp => .inl hp
  covers := by simp
  apart := fun _ hp hnew => absurd hp hnew

/-- A link that is not added, as there is one like it. -/
theorem Relinked.skip {w w' : Wiring} {start : String} {these : List PlacedLink}
    (h : Relinked w start these w') {q : PlacedLink}
    (like : ∃ p ∈ w.outgoing start, p.way = q.way) : Relinked w start (q :: these) w' where
  keeps := h.keeps
  adds := fun p hp => (h.adds p hp).imp_right fun ⟨r, hr, he⟩ => ⟨r, List.mem_cons_of_mem _ hr, he⟩
  covers := by
    refine List.forall_mem_cons.mpr ⟨?_, h.covers⟩
    obtain ⟨p, hp, hway⟩ := like
    exact ⟨p, h.outgoing hp, hway⟩
  apart := h.apart

/-- A link that is added before the others. -/
theorem Relinked.add {w w' : Wiring} (v : w.Valid) {start : String} {q : PlacedLink}
    {these : List PlacedLink}
    (h : Relinked (w.place start q.link.target q.link.data) start these w')
    (none : ∀ p ∈ w.outgoing start, p.way ≠ q.way) : Relinked w start (q :: these) w' := by
  let new : PlacedLink := ⟨w.nextSlot, ⟨start, q.link.target, q.link.data, w.clock⟩⟩
  have mem : ∀ {p}, p ∈ (w.place start q.link.target q.link.data).placed ↔ p = new ∨ p ∈ w.placed :=
    (v.placed_place start q.link.target q.link.data).mem_iff.trans List.mem_cons
  have hnew : new ∈ w'.outgoing start := h.outgoing (mem_outgoing.mpr ⟨mem.mpr (.inl rfl), rfl⟩)
  refine ⟨fun p hp => h.keeps p (mem.mpr (.inr hp)), fun p hp => ?_, ?_,
    fun p hp hout r hr he => ?_⟩
  · rcases h.adds p hp with hold | ⟨r, hr, he⟩
    · rcases mem.mp hold with rfl | hold
      · exact .inr ⟨q, List.mem_cons_self, rfl⟩
      · exact .inl hold
    · exact .inr ⟨r, List.mem_cons_of_mem _ hr, he⟩
  · exact List.forall_mem_cons.mpr ⟨⟨new, hnew, rfl⟩, h.covers⟩
  · -- of two new links, the later one was added only because the earlier one was not like it
    by_cases hold : p ∈ (w.place start q.link.target q.link.data).placed
    · obtain rfl : p = new := (mem.mp hold).resolve_right hout
      by_cases hr' : r ∈ (w.place start q.link.target q.link.data).placed
      · rcases mem.mp hr' with rfl | hr'
        · rfl
        · exact absurd he (none r (mem_outgoing.mpr ⟨hr', (mem_outgoing.mp hr).2⟩))
      · exact (h.apart r (mem_outgoing.mp hr).1 hr' _ hnew he.symm).symm
    · exact h.apart p hp hold r hr he

theorem Valid.relinked {w : Wiring} (v : w.Valid) {start : String} (hs : start ∈ w.nodes)
    {these : List PlacedLink} (targets : ∀ q ∈ these, q.link.target ∈ w.nodes) :
    Relinked w start these (these.foldl (Wiring.relink start) w) := by
  induction these generalizing w with
  | nil => exact relinked_nil w start
  | cons q these ih =>
    obtain ⟨hq, hthese⟩ := List.forall_mem_cons.mp targets
    rw [List.foldl_cons]
    rcases relink_eq start w q with ⟨he, like⟩ | ⟨he, none⟩
    · rw [he]
      exact (ih v hs hthese).skip like
    · rw [he]
      have vq := v.place q.link.data hs hq
      exact (ih vq (by simpa using hs) (by simpa using hthese)).add v none

/-- What a fold does to the links of a wiring. -/
structure Hands (w : Wiring) (start stop : String) (w' : Wiring) : Prop where
  keeps : ∀ p ∈ w.placed, p.link.source ∈ w'.nodes → p.link.target ∈ w'.nodes → p ∈ w'.placed
  adds : ∀ p ∈ w'.placed, p ∈ w.placed ∨ ∃ q ∈ w.outgoing stop, p.arrow = handed start q
  covers : ∀ q ∈ w.outgoing stop, q.link.target ∈ w'.nodes →
    ∃ p ∈ w'.outgoing start, p.way = q.way
  apart : ∀ p ∈ w'.placed, p ∉ w.placed → ∀ q ∈ w'.outgoing start, q.way = p.way → q = p

theorem Valid.hands {w w' : Wiring} (v : w.Valid) {start stop : String} (ne : start ≠ stop)
    (h : w.compress start stop = .ok w') : w.Hands start stop w' := by
  have folds := v.folds h
  obtain ⟨-, rfl⟩ := eq_of_compress h
  let u := w.cleared start stop
  have vu : u.Valid := v.cleared start stop
  have hstart : start ∈ u.nodes := v.start_mem_cleared (mem_of_compress h).1 stop
  have targets : ∀ q ∈ u.outgoing stop, q.link.target ∈ u.nodes := fun q hq =>
    vu.target q (mem_outgoing.mp hq).1
  have relinked := vu.relinked hstart targets
  -- the last node goes in the end, with the links that touch it
  have last : ∀ {p},
      p ∈ (((u.outgoing stop).foldl (Wiring.relink start) u).removeNode stop).placed ↔
        p ∈ ((u.outgoing stop).foldl (Wiring.relink start) u).placed ∧ p.link.source ≠ stop ∧
          p.link.target ≠ stop := by
    intro p
    rw [placed_removeNode, List.mem_filter, decide_eq_true_eq]
  -- what lies on a path ends in the region or at its end, so what ends elsewhere is left
  have spares : ∀ p ∈ w.placed, p.link.source ∉ w.between start stop → p.link.target ≠ stop →
      p.link.target ∉ w.between start stop → p ∈ u.placed := by
    intro p hp hsource hne hbetween
    refine mem_placed_cleared.mpr ⟨hp, fun hin => ?_, hsource, hbetween⟩
    exact (List.mem_cons.mp (target_of_mem_paths hin)).elim hne hbetween
  have stop_out : stop ∉ w.between start stop := fun hin => (mem_between.mp hin).1 rfl
  refine ⟨fun p hp hsource htarget => ?_, fun p hp => ?_, fun q hq htarget => ?_,
    fun p hp hnew q hq he => ?_⟩
  · obtain ⟨-, hs1, hs2⟩ := folds.mem_nodes.mp hsource
    obtain ⟨-, ht1, ht2⟩ := folds.mem_nodes.mp htarget
    exact last.mpr ⟨relinked.keeps p (spares p hp hs2 ht1 ht2), hs1, ht1⟩
  · refine (relinked.adds p (last.mp hp).1).imp (fun hold => (mem_placed_cleared.mp hold).1) ?_
    rintro ⟨q, hq, he⟩
    obtain ⟨hq, hsource⟩ := mem_outgoing.mp hq
    exact ⟨q, mem_outgoing.mpr ⟨(mem_placed_cleared.mp hq).1, hsource⟩, he⟩
  · obtain ⟨-, ht1, ht2⟩ := folds.mem_nodes.mp htarget
    obtain ⟨hq, hsource⟩ := mem_outgoing.mp hq
    have hleft := spares q hq (hsource ▸ stop_out) ht1 ht2
    obtain ⟨p, hp, hway⟩ := relinked.covers q (mem_outgoing.mpr ⟨hleft, hsource⟩)
    obtain ⟨hp, hsource⟩ := mem_outgoing.mp hp
    have htarget : p.link.target = q.link.target := (PlacedLink.way_eq_iff.mp hway).1
    exact ⟨p, mem_outgoing.mpr ⟨last.mpr ⟨hp, hsource ▸ ne, htarget ▸ ht1⟩, hsource⟩, hway⟩
  · obtain ⟨hp, hps, hpt⟩ := last.mp hp
    obtain ⟨hq, hsource⟩ := mem_outgoing.mp hq
    refine relinked.apart p hp (fun hold => hnew (mem_placed_cleared.mp hold).1) q
      (mem_outgoing.mpr ⟨(last.mp hq).1, hsource⟩) he

/-! ## Runs of folds -/

/-- What the links of a wiring have become when the regions between these pairs have been folded. -/
structure Inherits (w : Wiring) (pairs : List (String × String)) (w' : Wiring) : Prop where
  sub : w'.nodes ⊆ w.nodes
  gone : ∀ e ∈ pairs, e.2 ∉ w'.nodes
  keeps : ∀ p ∈ w.placed, p.link.source ∈ w'.nodes → p.link.target ∈ w'.nodes → p ∈ w'.placed
  comes : ∀ p ∈ w'.placed, p ∈ w.placed ∨
    ∃ e ∈ pairs, ∃ q ∈ w.outgoing e.2, p.arrow = handed e.1 q
  covers : ∀ e ∈ pairs, e.1 ∈ w'.nodes → ∀ q ∈ w.outgoing e.2, q.link.target ∈ w'.nodes →
    ∃ p ∈ w'.outgoing e.1, p.way = q.way
  apart : ∀ p ∈ w'.placed, p ∉ w.placed → ∀ q ∈ w'.outgoing p.link.source, q.way = p.way → q = p

theorem inherits_nil (w : Wiring) : w.Inherits [] w where
  sub := fun _ hid => hid
  gone := by simp
  keeps := fun _ hp _ _ => hp
  comes := fun _ hp => .inl hp
  covers := by simp
  apart := fun _ hp hnew => absurd hp hnew

/-- A link that was not there from the start leaves the first node of a pair. -/
theorem Inherits.source_of_new {w w' : Wiring} {pairs : List (String × String)}
    (h : w.Inherits pairs w') {p : PlacedLink} (hp : p ∈ w'.placed) (new : p ∉ w.placed) :
    p.link.source ∈ pairs.map Prod.fst := by
  obtain ⟨e, he, q, -, harrow⟩ := (h.comes p hp).resolve_left new
  exact (way_of_handed harrow).1 ▸ List.mem_map_of_mem he

/-- One more fold, between nodes of which neither has been the first node of a pair. -/
theorem Inherits.next {w u u' : Wiring} {pairs : List (String × String)} (h : w.Inherits pairs u)
    (v : u.Valid) {start stop : String} (ne : start ≠ stop) (fresh : start ∉ pairs.map Prod.fst)
    (fresh' : stop ∉ pairs.map Prod.fst) (fold : u.compress start stop = .ok u') :
    w.Inherits (pairs ++ [(start, stop)]) u' := by
  have folds := v.folds fold
  have hands := v.hands ne fold
  have hstop : stop ∈ u.nodes := (mem_of_compress fold).2
  have stays : ∀ {id}, id ∈ u'.nodes → id ∈ u.nodes := fun hid => (folds.mem_nodes.mp hid).1
  refine ⟨fun id hid => h.sub (stays hid), ?_, fun p hp hs ht => ?_, fun p hp => ?_, ?_,
    fun p hp new q hq he => ?_⟩
  · intro e he hin
    rcases List.mem_append.mp he with he | he
    · exact h.gone e he (stays hin)
    · obtain rfl := List.mem_singleton.mp he
      exact (folds.mem_nodes.mp hin).2.1 rfl
  · exact hands.keeps p (h.keeps p hp (stays hs) (stays ht)) hs ht
  · rcases hands.adds p hp with hold | ⟨q, hq, harrow⟩
    · refine (h.comes p hold).imp_right ?_
      rintro ⟨e, he, q, hq, harrow⟩
      exact ⟨e, List.mem_append_left _ he, q, hq, harrow⟩
    · -- what leaves the last node has left it from the start
      obtain ⟨hq, hsource⟩ := mem_outgoing.mp hq
      have hold : q ∈ w.placed := by
        by_contra new
        exact fresh' (hsource ▸ h.source_of_new hq new)
      exact .inr ⟨(start, stop), by simp, q, mem_outgoing.mpr ⟨hold, hsource⟩, harrow⟩
  · intro e he hin q hq ht
    rcases List.mem_append.mp he with he | he
    · obtain ⟨p, hp, hway⟩ := h.covers e he (stays hin) q hq (stays ht)
      obtain ⟨hp, hsource⟩ := mem_outgoing.mp hp
      have htarget : p.link.target = q.link.target := (PlacedLink.way_eq_iff.mp hway).1
      exact ⟨p, mem_outgoing.mpr ⟨hands.keeps p hp (hsource ▸ hin) (htarget ▸ ht), hsource⟩, hway⟩
    · obtain rfl := List.mem_singleton.mp he
      obtain ⟨hq, hsource⟩ := mem_outgoing.mp hq
      have hold := h.keeps q hq (hsource ▸ hstop) (stays ht)
      exact hands.covers q (mem_outgoing.mpr ⟨hold, hsource⟩) ht
  · obtain ⟨hq, hsource⟩ := mem_outgoing.mp hq
    by_cases hold : p ∈ u.placed
    · by_cases hold' : q ∈ u.placed
      · exact h.apart p hold new q (mem_outgoing.mpr ⟨hold', hsource⟩) he
      · -- a link of an earlier pair and one of this pair leave different nodes
        obtain ⟨r, -, harrow⟩ := (hands.adds q hq).resolve_left hold'
        have hstart : q.link.source = start := (way_of_handed harrow).1
        exact absurd (h.source_of_new hold new) (hsource ▸ hstart ▸ fresh)
    · obtain ⟨r, -, harrow⟩ := (hands.adds p hp).resolve_left hold
      have hstart : p.link.source = start := (way_of_handed harrow).1
      exact hands.apart p hp hold q (mem_outgoing.mpr ⟨hq, hsource.trans hstart⟩) he

end Wiring

end WorkflowCompiler
