import WorkflowCompiler.Proofs.Wiring.Calls
import WorkflowCompiler.Proofs.Wiring.Grouping
import WorkflowCompiler.Proofs.Wiring.Handing

/-!
# Collapsing a region

Where there are no cycles every walk is a simple path, so the paths between two nodes pass through
exactly what lies between them: what the first one leads to and what leads to the last one. Folding
takes all this away, leaves every link outside it in its slot, and links the first node to what the
last one was linked to, once in each way.
-/
namespace WorkflowCompiler

/-- Whether two connections join the same nodes in the same way; the case of a fork that they leave
by does not count. -/
def Arrow.SameWay (a b : Arrow) : Prop :=
  a.source = b.source ∧ a.target = b.target ∧ a.data.formatter = b.data.formatter ∧
    a.data.targetHandle = b.data.targetHandle

instance (a b : Arrow) : Decidable (a.SameWay b) := by
  unfold Arrow.SameWay
  infer_instance

namespace Wiring

open Relation

/-! ## Walks without cycles -/

section Walks

variable {w : Wiring} {stop here id : String} {path : List PlacedLink}

theorem Walk.leads (walk : w.Walk stop here path) : ReflTransGen w.Joined here stop ∧
    ∀ p ∈ path, p.link.source ≠ stop ∧ ReflTransGen w.Joined here p.link.target ∧
      ReflTransGen w.Joined p.link.target stop := by
  induction walk with
  | here => exact ⟨.refl, by simp⟩
  | @along p path placed ne _ ih =>
    have hjoined : w.Joined p.link.source p.link.target := ⟨p, placed, rfl, rfl⟩
    refine ⟨.head hjoined ih.1, List.forall_mem_cons.mpr ⟨⟨ne, .single hjoined, ih.1⟩, ?_⟩⟩
    exact fun q hq => ⟨(ih.2 q hq).1, .head hjoined (ih.2 q hq).2.1, (ih.2 q hq).2.2⟩

variable {position : String → Nat} (forward : ∀ a b, w.Joined a b → position a < position b)

include forward

theorem position_le (h : ReflTransGen w.Joined here stop) : position here ≤ position stop := by
  induction h with
  | refl => exact Nat.le_refl _
  | tail _ hbc ih => exact ih.trans (forward _ _ hbc).le

/-- Where links lead forward, a walk meets no node twice. -/
theorem Walk.simple (walk : w.Walk stop here path) :
    (here :: path.map fun p => p.link.target).Nodup := by
  induction walk with
  | here => simp
  | @along p path placed ne rest ih =>
    refine List.nodup_cons.mpr ⟨fun hin => ?_, ih⟩
    obtain ⟨q, hq, he⟩ := List.mem_map.mp hin
    have hlt := ((Walk.along placed ne rest).rising forward).2 q hq
    exact Nat.lt_irrefl _ (he ▸ hlt.1)

/-- Some walk passes through each node on the way. -/
theorem exists_walk_through (h : ReflTransGen w.Joined here id)
    (h' : ReflTransGen w.Joined id stop) :
    ∃ path, w.Walk stop here path ∧ (here = id ∨ ∃ p ∈ path, p.link.target = id) := by
  induction h using ReflTransGen.head_induction_on with
  | refl =>
    obtain ⟨path, simple⟩ := exists_simplePath h'
    exact ⟨path, simple.walk, .inl rfl⟩
  | @head a x hax hxid ih =>
    obtain ⟨path, walk, through⟩ := ih
    have hlt := (forward a x hax).trans_le (position_le forward (hxid.trans h'))
    obtain ⟨p, hp, rfl, rfl⟩ := hax
    have ne : p.link.source ≠ stop := fun he => Nat.lt_irrefl _ (he ▸ hlt)
    refine ⟨p :: path, .along hp ne walk, .inr ?_⟩
    rcases through with rfl | ⟨q, hq, rfl⟩
    · exact ⟨p, List.mem_cons_self, rfl⟩
    · exact ⟨q, List.mem_cons_of_mem _ hq, rfl⟩

/-- Where links lead forward, the paths that are found are all the walks. -/
theorem Valid.mem_paths_iff (v : w.Valid) {start : String} :
    path ∈ w.paths start stop ↔ w.Walk stop start path := by
  rw [v.mem_paths_iff_simple]
  exact ⟨SimplePath.walk, fun walk => ⟨walk.placed, walk.chained, walk.simple forward⟩⟩

end Walks

/-! ## The region -/

/-- Whether a node goes when the region between two nodes is folded: the last node does, and all
that the first one leads to and that leads to the last one, but for the first one. -/
def Region (w : Wiring) (start stop id : String) : Prop :=
  id = stop ∨ id ≠ start ∧ ReflTransGen w.Joined start id ∧ ReflTransGen w.Joined id stop

theorem Valid.region_iff {w : Wiring} (v : w.Valid) {position : String → Nat}
    (forward : ∀ a b, w.Joined a b → position a < position b) {start stop id : String} :
    w.Region start stop id ↔ id ∈ stop :: w.between start stop := by
  rw [List.mem_cons]
  constructor
  · rintro (rfl | ⟨hne, hfrom, hto⟩)
    · exact .inl rfl
    · refine or_iff_not_imp_left.mpr fun hstop => mem_between.mpr ⟨hstop, ?_⟩
      obtain ⟨path, walk, through⟩ := exists_walk_through forward hfrom hto
      exact ⟨path, (v.mem_paths_iff forward).mpr walk, through.resolve_left hne.symm⟩
  · rintro (rfl | hin)
    · exact .inl rfl
    · have hne : id ≠ start := fun he => start_not_mem_between w start stop (he ▸ hin)
      obtain ⟨-, path, hpath, p, hp, rfl⟩ := mem_between.mp hin
      have hleads := ((v.mem_paths_iff forward).mp hpath).leads.2 p hp
      exact .inr ⟨hne, hleads.2⟩

/-! ## What is handed on -/

/-- The connections that `start` gets when those that leave another node are handed to it one after
the other: each of them, unless there is by then one that joins `start` to the target in the same
way. -/
def handedOn (start : String) : (there leaving : List Arrow) → List Arrow
  | _, [] => []
  | there, a :: rest =>
    let new : Arrow := { a with source := start }
    if ∃ b ∈ there, b.SameWay new then handedOn start there rest
    else new :: handedOn start (there ++ [new]) rest

theorem mem_handedOn {start : String} {there leaving : List Arrow} {b : Arrow}
    (h : b ∈ handedOn start there leaving) : ∃ a ∈ leaving, b = { a with source := start } := by
  induction leaving generalizing there with
  | nil => cases h
  | cons a rest ih =>
    have later : ∀ {there}, b ∈ handedOn start there rest →
        ∃ c ∈ a :: rest, b = { c with source := start } := fun h =>
      (ih h).imp fun _ hc => ⟨List.mem_cons_of_mem _ hc.1, hc.2⟩
    unfold handedOn at h
    dsimp only at h
    split at h
    · exact later h
    · exact (List.mem_cons.mp h).elim (fun he => ⟨a, List.mem_cons_self, he⟩) later

/-- Linking a node in the ways of others adds exactly what is handed on. -/
theorem Valid.placed_relinks {w : Wiring} (v : w.Valid) {start : String} (hs : start ∈ w.nodes)
    {qs : List PlacedLink} (targets : ∀ q ∈ qs, q.link.target ∈ w.nodes) {there : List Arrow}
    (same : ∀ a, a.source = start → (a ∈ there ↔ a ∈ w.arrows)) :
    ∃ added, (qs.foldl (Wiring.relink start) w).placed.Perm (w.placed ++ added) ∧
      added.map PlacedLink.arrow = handedOn start there (qs.map PlacedLink.arrow) := by
  induction qs generalizing w there with
  | nil => exact ⟨[], by simp, rfl⟩
  | cons q qs ih =>
    obtain ⟨hq, hqs⟩ := List.forall_mem_cons.mp targets
    let new : Arrow := { q.arrow with source := start }
    have like : (∃ b ∈ there, b.SameWay new) ↔ ∃ p ∈ w.outgoing start, p.way = q.way := by
      constructor
      · rintro ⟨b, hb, hsource, hway⟩
        obtain ⟨p, hp, rfl⟩ := List.mem_map.mp ((same b hsource).mp hb)
        exact ⟨p, mem_outgoing.mpr ⟨hp, hsource⟩, PlacedLink.way_eq_iff.mpr hway⟩
      · rintro ⟨p, hp, hway⟩
        obtain ⟨hp, hsource⟩ := mem_outgoing.mp hp
        exact ⟨p.arrow, (same _ hsource).mpr (List.mem_map_of_mem hp), hsource,
          PlacedLink.way_eq_iff.mp hway⟩
    rw [List.foldl_cons, List.map_cons, handedOn]
    rcases relink_eq start w q with ⟨he, old⟩ | ⟨he, none⟩
    · rw [he, if_pos (like.mpr old)]
      exact ih v hs hqs same
    · have fresh : ¬ ∃ b ∈ there, b.SameWay new := fun h => by
        obtain ⟨p, hp, hway⟩ := like.mp h
        exact none p hp hway
      have vq := v.place q.link.data hs hq
      have perm := v.placed_place start q.link.target q.link.data
      have same' : ∀ a, a.source = start →
          (a ∈ there ++ [new] ↔ a ∈ (w.place start q.link.target q.link.data).arrows) := by
        intro a ha
        rw [(v.arrows_place start q.link.target q.link.data).mem_iff, List.mem_append,
          List.mem_append, same a ha]
        exact Iff.rfl
      obtain ⟨added, hperm, hadded⟩ := ih vq (by simpa using hs) (by simpa using hqs) same'
      rw [he, if_neg fresh]
      refine ⟨⟨w.nextSlot, ⟨start, q.link.target, q.link.data, w.clock⟩⟩ :: added, ?_, ?_⟩
      · exact hperm.trans ((perm.append_right added).trans List.perm_middle.symm)
      · rw [List.map_cons, hadded]
        rfl

/-! ## Folding -/

/-- The one rewrite that folding a region is. The nodes of the region go and all others stay in
order; links between nodes that stay keep their slots and all that is known of them; and the first
node is linked to what the last one was linked to. -/
structure Collapses (w : Wiring) (start stop : String) (w' : Wiring) : Prop where
  nodes : w'.nodes.Sublist w.nodes
  stays : ∀ id, id ∈ w'.nodes ↔ id ∈ w.nodes ∧ ¬ w.Region start stop id
  links : ∃ kept added, w'.placed.Perm (kept ++ added) ∧ kept.Sublist w.placed ∧
    (∀ p, p ∈ kept ↔ p ∈ w.placed ∧ ¬ w.Region start stop p.link.source ∧
      ¬ w.Region start stop p.link.target) ∧
    added.map PlacedLink.arrow =
      handedOn start (kept.map PlacedLink.arrow) ((w.outgoing stop).map PlacedLink.arrow)

section Clearing

variable {w : Wiring} (v : w.Valid) {position : String → Nat}
  (forward : ∀ a b, w.Joined a b → position a < position b) {start stop : String}

include v forward

/-- Clearing a region takes no link away that leaves its last node. -/
theorem Valid.outgoing_cleared :
    (w.cleared start stop).outgoing stop = w.outgoing stop := by
  unfold outgoing
  rw [placed_cleared, List.filter_filter]
  refine List.filter_congr fun p hp => ?_
  by_cases hs : p.link.source = stop
  · have hrise := forward _ _ ⟨p, hp, rfl, rfl⟩
    have hflat : p ∉ (w.paths start stop).flatten := by
      intro hin
      obtain ⟨path, hpath, hin⟩ := List.mem_flatten.mp hin
      exact (((v.mem_paths_iff forward).mp hpath).leads.2 p hin).1 hs
    have hsource : p.link.source ∉ w.between start stop := fun hin => (mem_between.mp hin).1 hs
    have htarget : p.link.target ∉ w.between start stop := fun hin => by
      have := (position_of_mem_between forward hin).2
      rw [hs] at hrise
      omega
    simp [hs, hflat, htarget, hs ▸ hsource]
  · simp [hs]

/-- Clearing a region takes away what joins its ends. -/
theorem Valid.target_ne_of_mem_cleared (ne : start ≠ stop) {p : PlacedLink}
    (hp : p ∈ (w.cleared start stop).placed) (hs : p.link.source = start) :
    p.link.target ≠ stop := by
  intro ht
  obtain ⟨hp, hflat, -⟩ := mem_placed_cleared.mp hp
  have hpath : [p] ∈ w.paths start stop := (v.mem_paths_iff forward).mpr
    (hs ▸ .along hp (hs ▸ ne) (ht ▸ .here))
  exact hflat (List.mem_flatten.mpr ⟨[p], hpath, List.mem_singleton_self p⟩)

omit v in
/-- What is handed on leaves the first node of a region and does not end in the last one. -/
theorem ends_of_mem_handedOn {there : List Arrow} {b : Arrow}
    (h : b ∈ handedOn start there ((w.outgoing stop).map PlacedLink.arrow)) :
    b.source = start ∧ b.target ≠ stop := by
  obtain ⟨a, ha, rfl⟩ := mem_handedOn h
  obtain ⟨q, hq, rfl⟩ := List.mem_map.mp ha
  obtain ⟨hq, hsource⟩ := mem_outgoing.mp hq
  have hrise := forward _ _ ⟨q, hq, hsource, rfl⟩
  exact ⟨rfl, fun he => Nat.lt_irrefl _ (he ▸ hrise)⟩

/-- The links that are left when a region has been cleared and its last node removed are those that
do not touch the region. -/
theorem Valid.mem_kept {p : PlacedLink} :
    p ∈ (w.cleared start stop).placed.filter
        (fun p => p.link.source ≠ stop ∧ p.link.target ≠ stop) ↔
      p ∈ w.placed ∧ ¬ w.Region start stop p.link.source ∧ ¬ w.Region start stop p.link.target := by
  rw [List.mem_filter, mem_placed_cleared, decide_eq_true_eq, v.region_iff forward, v.region_iff forward,
    List.mem_cons, List.mem_cons]
  have hflat : p ∈ (w.paths start stop).flatten →
      p.link.target = stop ∨ p.link.target ∈ w.between start stop := fun hin =>
    List.mem_cons.mp (target_of_mem_paths hin)
  tauto

/-- No link of the first node of a cleared region is lost with the last node. -/
theorem Valid.mem_arrows_kept (ne : start ≠ stop) {a : Arrow} (ha : a.source = start) :
    a ∈ ((w.cleared start stop).placed.filter
        fun p => p.link.source ≠ stop ∧ p.link.target ≠ stop).map PlacedLink.arrow ↔
      a ∈ (w.cleared start stop).arrows := by
  refine ⟨fun hin => (List.filter_sublist.map _).subset hin, fun hin => ?_⟩
  obtain ⟨p, hp, rfl⟩ := List.mem_map.mp hin
  have ht := v.target_ne_of_mem_cleared forward ne hp ha
  have hs : p.link.source ≠ stop := fun he => ne (ha.symm.trans he)
  exact List.mem_map_of_mem (List.mem_filter.mpr ⟨hp, by simpa using ⟨hs, ht⟩⟩)

theorem Valid.collapses (ne : start ≠ stop) {w' : Wiring} (h : w.compress start stop = .ok w') :
    w.Collapses start stop w' := by
  have folds := v.folds h
  obtain ⟨-, rfl⟩ := eq_of_compress h
  let u := w.cleared start stop
  have vu : u.Valid := v.cleared start stop
  have hin : start ∈ u.nodes := v.start_mem_cleared (mem_of_compress h).1 stop
  obtain ⟨added, perm, hadded⟩ := vu.placed_relinks hin
    (fun q hq => vu.target q (mem_outgoing.mp hq).1) fun _ => v.mem_arrows_kept forward ne
  rw [v.outgoing_cleared forward] at hadded
  have hstays : added.filter (fun p => p.link.source ≠ stop ∧ p.link.target ≠ stop) = added := by
    refine List.filter_eq_self.mpr fun p hp => ?_
    obtain ⟨hs, ht⟩ := ends_of_mem_handedOn forward
      (hadded ▸ List.mem_map_of_mem (f := PlacedLink.arrow) hp)
    have hne : p.link.source ≠ stop := fun he => ne (hs.symm.trans he)
    simpa using ⟨hne, ht⟩
  refine ⟨folds.nodes ▸ List.filter_sublist, fun id => ?_, _, added, ?_, ?_,
    fun _ => v.mem_kept forward, hadded⟩
  · rw [folds.mem_nodes, v.region_iff forward, List.mem_cons, not_or]
  · rw [placed_removeNode]
    refine (perm.filter _).trans ?_
    rw [List.filter_append, hstays]
  · refine List.filter_sublist.trans ?_
    exact placed_cleared w start stop ▸ List.filter_sublist

end Clearing

/-- Folding fails exactly when one of the two nodes is not there or the first one does not lead to
the last one. -/
theorem Valid.compress_fails_iff {w : Wiring} (v : w.Valid) {start stop : String} :
    (∃ e, w.compress start stop = .error e) ↔
      start ∉ w.nodes ∨ stop ∉ w.nodes ∨ ¬ ReflTransGen w.Joined start stop := by
  by_cases hends : start ∈ w.nodes ∧ stop ∈ w.nodes
  · rw [compress_eq hends.1 hends.2, ← v.paths_eq_nil_iff]
    by_cases hnone : w.paths start stop = [] <;> simp [hends, hnone]
  · have hfails : ∃ e, w.compress start stop = .error e := by
      rcases h : w.compress start stop with e | w'
      · exact ⟨e, rfl⟩
      · exact absurd (mem_of_compress h) hends
    exact ⟨fun _ => by tauto, fun _ => hfails⟩

/-- Folding a region of a wiring without cycles either fails and leaves the wiring as it is, which
it does exactly when one of the two nodes is not there or the first one does not lead to the last
one, or it is one rewrite. -/
theorem Built.compress_exact {w : Wiring} (built : w.Built) (acyclic : w.Acyclic)
    {start stop : String} (ne : start ≠ stop) :
    ∃ result w', w.call (.compress start stop) = (result, w') ∧
      ((∃ e, result = .error e) ↔
        start ∉ w.nodes ∨ stop ∉ w.nodes ∨ ¬ ReflTransGen w.Joined start stop) ∧
      (∀ e, result = .error e → w' = w) ∧
      (result = .ok () → w.Collapses start stop w') := by
  have v := built.valid
  obtain ⟨order, hsort⟩ := v.exists_topologicalOrder acyclic
  have forward := (v.isOrder_of_topologicalOrder hsort).forward
  rw [← v.compress_fails_iff]
  unfold Wiring.call
  dsimp only
  cases h : w.compress start stop with
  | ok w' => exact ⟨.ok (), w', rfl, by simp, by simp, fun _ => v.collapses forward ne h⟩
  | error e => exact ⟨.error e, w, rfl, by simp, by simp, by simp⟩

/-- A fork that also leads past its region, in one of the two ways in which the region goes on. -/
def bypass : Wiring :=
  (((((({} : Wiring).addLink "fork" "left" { key := "a" }).addLink "fork" "join" { key := "b" }).addLink
    "left" "join" {}).addLink "fork" "after" { key := "c" }).addLink "join" "after" {}).addLink
      "join" "after" { formatter := some "list" }

theorem compress_exact_bypass :
    ∃ w', bypass.call (.compress "fork" "join") = (.ok (), w') ∧
      bypass.Collapses "fork" "join" w' ∧ w'.nodes = ["fork", "after"] ∧
      w'.arrows = [⟨"fork", "after", { formatter := some "list" }⟩,
        ⟨"fork", "after", { key := "c" }⟩] := by
  have built : bypass.Built :=
    (((((Built.empty.addLink _ _ _).addLink _ _ _).addLink _ _ _).addLink _ _ _).addLink
      _ _ _).addLink _ _ _
  have forward : ∀ p ∈ bypass.placed, bypass.nodes.idxOf p.link.source <
      bypass.nodes.idxOf p.link.target := by decide +kernel
  have acyclic : bypass.Acyclic := acyclic_of_forward bypass.nodes.idxOf fun a b => by
    rintro ⟨p, hp, rfl, rfl⟩
    exact forward p hp
  obtain ⟨result, w', hcall, -, -, hcollapses⟩ :=
    built.compress_exact acyclic (show "fork" ≠ "join" by decide)
  have hok : (bypass.compress "fork" "join").isOk = true := by decide +kernel
  cases h : bypass.compress "fork" "join" with
  | error e =>
    rw [h] at hok
    cases hok
  | ok folded =>
    have hsucceeds : bypass.call (.compress "fork" "join") = (.ok (), folded) := by
      unfold Wiring.call
      dsimp only
      rw [h]
    obtain ⟨rfl, rfl⟩ := Prod.mk.inj (hcall.symm.trans hsucceeds)
    obtain ⟨-, hfolded⟩ := eq_of_compress h
    refine ⟨w', hcall, hcollapses rfl, ?_, ?_⟩
    · rw [hfolded, nodes_removeNode]
      decide +kernel
    · rw [hfolded, arrows_removeNode]
      decide +kernel

end Wiring

end WorkflowCompiler
