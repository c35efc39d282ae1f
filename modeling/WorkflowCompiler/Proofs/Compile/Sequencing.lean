import WorkflowCompiler.Proofs.Compile.Arranging
import WorkflowCompiler.Proofs.Wiring.Sorting
import WorkflowCompiler.Proofs.Wiring.Regions

/-!
# Structured graphs in order

The node released last comes next, so once a fork is in order its bodies follow one after the other,
each as a whole, and the last of them releases the aggregator. A structured graph is therefore put
in order item by item.
-/
namespace WorkflowCompiler

namespace Wiring

open SortState

/-- The connections of a wiring, in order, have the ends of these. -/
def Draws (w : Wiring) (edges : List EditorEdge) : Prop :=
  w.arrows.map (fun a => (a.source, a.target)) = edges.map fun e => (e.source, e.target)

theorem Draws.joined_iff {w : Wiring} {edges : List EditorEdge} (draws : w.Draws edges)
    {a b : String} : w.Joined a b ↔ ∃ e ∈ edges, e.source = a ∧ e.target = b := by
  have hmem : (a, b) ∈ w.arrows.map (fun x => (x.source, x.target)) ↔
      (a, b) ∈ edges.map fun e => (e.source, e.target) := by rw [draws]
  rw [Wiring.joined_iff]
  simpa [List.mem_map, Prod.ext_iff] using hmem

theorem Draws.successors {w : Wiring} {edges : List EditorEdge} (draws : w.Draws edges)
    (id : String) :
    w.successors id = (edges.filter fun e => e.source = id).map EditorEdge.target := by
  have hfilter := congrArg (fun pairs : List (String × String) =>
    (pairs.filter fun p => p.1 = id).map Prod.snd) draws
  simp only [List.filter_map, List.map_map] at hfilter
  refine Eq.trans ?_ hfilter
  unfold Wiring.successors outgoing Wiring.arrows
  rw [List.filter_map, List.map_map]
  rfl

/-- A node, if all nodes that lead to it are done. -/
def due (w : Wiring) (done : List String) (id : String) : List String :=
  if w.unfollowed done id = 0 then [id] else []

theorem due_eq_self {w : Wiring} {done : List String} {id : String}
    (h : ∀ a, w.Joined a id → a ∈ done) : w.due done id = [id] :=
  if_pos (unfollowed_eq_zero.mpr h)

theorem due_eq_nil {w : Wiring} {done : List String} {id a : String} (h : w.Joined a id)
    (ha : a ∉ done) : w.due done id = [] :=
  if_neg fun hzero => ha (unfollowed_eq_zero.mp hzero a h)

theorem releases_single {w : Wiring} {order : List String} {id next : String} (h : id ∉ order)
    (one : w.successors id = [next]) : w.releases order id = w.due (order ++ [id]) next := by
  have hcount := w.unfollowed_append h next
  rw [one, List.count_singleton_self] at hcount
  unfold releases due
  rw [one, runOut, runOut]
  split <;> split <;> first | rfl | omega

theorem run_add (w : Wiring) (m n : Nat) (s : SortState) :
    SortState.run w (m + n) s = SortState.run w n (SortState.run w m s) := by
  induction m generalizing s with
  | zero => rw [Nat.zero_add]; rfl
  | succ m ih =>
    rw [Nat.succ_add]
    exact ih (s.step w)

end Wiring

namespace Route

/-- A route without nodes enters its target at once, and any other its first node. -/
theorem Leads.entry {source target : String} {r : Route} (h : r.Leads source target) :
    (r.ids = [] ∧ r.first.target = target) ∨ ∃ more, r.ids = r.first.target :: more := by
  cases h with
  | link _ enters => exact .inl ⟨rfl, enters⟩
  | step _ enters => exact .inr ⟨_, by rw [first, enters, ids_step]⟩
  | block _ enters => exact .inr ⟨_, by rw [first, enters, ids_block]⟩

theorem Leads.enters_target {source target : String} {r : Route} (h : r.Leads source target)
    (empty : r.ids = []) : r.first.target = target := by
  obtain ⟨edge, rfl, -, enters⟩ := h.eq_link empty
  exact enters

/-- Every node of a route is entered by one of its connections. -/
theorem Leads.entered {source target : String} {r : Route} (h : r.Leads source target) :
    (∃ e ∈ r.edges, e.target = target) ∧ ∀ id ∈ r.ids, ∃ e ∈ r.edges, e.target = id := by
  induction h with
  | @link _ _ edge _ enters => exact ⟨⟨edge, by simp [edges], enters⟩, by simp⟩
  | @step _ _ edge node rest _ enters _ _ _ ih =>
    obtain ⟨⟨e, he, ht⟩, hall⟩ := ih
    refine ⟨⟨e, by simp [edges, he], ht⟩, fun id hid => ?_⟩
    cases List.mem_cons.mp hid with
    | inl hid => exact ⟨edge, by simp [edges], by rw [enters, hid]⟩
    | inr hid =>
      obtain ⟨e, he, ht⟩ := hall id hid
      exact ⟨e, by simp [edges, he], ht⟩
  | @block _ _ edge fork stop bodies rest _ enters _ _ _ _ nonempty _ _ _ _ ihBodies ih =>
    obtain ⟨⟨e, he, ht⟩, hall⟩ := ih
    refine ⟨⟨e, by simp [he], ht⟩, fun id hid => ?_⟩
    rw [edges_block]
    obtain hid | ⟨body, hbody, hid⟩ | hid | hid := mem_ids_block.mp hid
    · exact ⟨edge, List.mem_cons_self, by rw [enters, hid]⟩
    · obtain ⟨e, he, ht⟩ := (ihBodies body hbody).2 id hid
      exact ⟨e, List.mem_cons_of_mem _ (List.mem_append_left _ (List.mem_flatMap.mpr
        ⟨body, hbody, he⟩)), ht⟩
    · obtain ⟨body, hbody⟩ := List.exists_mem_of_ne_nil bodies nonempty
      obtain ⟨e, he, ht⟩ := (ihBodies body hbody).1
      exact ⟨e, List.mem_cons_of_mem _ (List.mem_append_left _ (List.mem_flatMap.mpr
        ⟨body, hbody, he⟩)), by rw [ht, hid]⟩
    · obtain ⟨e, he, ht⟩ := hall id hid
      exact ⟨e, List.mem_cons_of_mem _ (List.mem_append_right _ he), ht⟩

/-- Only the source of a route leads to its first node. -/
theorem Within.source_of_entry {edges : List EditorEdge} {source target : String} {r : Route}
    (h : Within edges source target r) (nonempty : r.ids ≠ []) {e : EditorEdge} (he : e ∈ edges)
    (ht : e.target = r.first.target) : e.source = source := by
  obtain ⟨leads, distinct, out, perm, apart⟩ := h
  have hout : e.target ∈ r.ids → e ∈ r.edges := by
    intro hin
    cases List.mem_append.mp (perm.mem_iff.mp he) with
    | inl he => exact he
    | inr he => exact absurd hin (apart e he).2
  cases leads with
  | link => exact absurd rfl nonempty
  | @step _ _ edge node rest leaves enters _ _ after =>
    have htarget : e.target = node.id := ht.trans enters
    simp only [ids_step, List.nodup_cons, List.mem_cons, not_or] at distinct
    cases List.mem_cons.mp (hout (by simp [htarget])) with
    | inl he => exact he ▸ leaves
    | inr he =>
      cases (after.ends e he).2 with
      | inl hin => exact absurd (hin.symm.trans htarget) distinct.2.1.1
      | inr hin => exact absurd (htarget ▸ hin) distinct.2.2.1
  | @block _ _ edge fork stop bodies rest leaves enters _ _ _ _ _ _ _ inside after =>
    have htarget : e.target = fork.id := ht.trans enters
    rw [ids_block] at distinct
    simp only [List.nodup_cons, List.mem_cons, List.mem_append, List.mem_flatMap, not_or,
      not_exists, not_and] at distinct
    have hin := hout (by simp [htarget])
    rw [edges_block] at hin
    cases List.mem_cons.mp hin with
    | inl he => exact he ▸ leaves
    | inr he =>
      cases List.mem_append.mp he with
      | inl he =>
        obtain ⟨body, hbody, he⟩ := List.mem_flatMap.mp he
        cases ((inside body hbody).ends e he).2 with
        | inl hin => exact absurd (htarget.symm.trans hin) distinct.2.2.1.2.1
        | inr hin => exact absurd (htarget ▸ hin) (distinct.2.2.1.1 body hbody)
      | inr he =>
        cases (after.ends e he).2 with
        | inl hin => exact absurd (hin.symm.trans htarget) distinct.2.1.1
        | inr hin => exact absurd (htarget ▸ hin) distinct.2.2.1.2.2

/-- Only the fork and the nodes of its bodies lead to the aggregator of a block. -/
theorem Within.source_of_stop {edges : List EditorEdge} {source target : String}
    {edge : EditorEdge} {fork stop : EditorNode} {bodies : List Route} {rest : Route}
    (h : Within edges source target (.block edge fork bodies stop rest)) {e : EditorEdge}
    (he : e ∈ edges) (ht : e.target = stop.id) :
    e.source = fork.id ∨ ∃ body ∈ bodies, e ∈ body.edges ∧ e.source ∈ body.ids := by
  obtain ⟨hends, -, ⟨hgr, -⟩, -⟩ := h.nodup_block
  obtain ⟨out, perm, hout, hrest, hbodies⟩ := h.parts
  cases List.mem_append.mp (perm.mem_iff.mp he) with
  | inl he =>
    obtain ⟨body, hbody, he⟩ := List.mem_flatMap.mp he
    exact (hbodies body hbody e he).1.imp_right fun hs => ⟨body, hbody, he, hs⟩
  | inr he =>
    cases List.mem_append.mp he with
    | inl he =>
      cases (hrest e he).2 with
      | inl hin => exact absurd (hin.symm.trans ht) (hends target (by simp)).2.1
      | inr hin => exact absurd (ht ▸ hin) hgr
    | inr he => exact absurd ht (hout e he).2.1

open Wiring SortState

section Runs

variable {w : Wiring} {edges : List EditorEdge} (draws : w.Draws edges)

include draws

theorem Within.due_entry {source target : String} {r : Route} (h : Within edges source target r)
    (nonempty : r.ids ≠ []) {done : List String} (hsource : source ∈ done) :
    w.due done r.first.target = [r.first.target] := by
  refine due_eq_self fun a ha => ?_
  obtain ⟨e, he, rfl, ht⟩ := draws.joined_iff.mp ha
  exact h.source_of_entry nonempty he ht ▸ hsource

section Fork

variable {source target : String} {edge : EditorEdge} {fork stop : EditorNode}
  {bodies : List Route} {rest : Route}
  (h : Within edges source target (.block edge fork bodies stop rest))

include h

omit draws in
/-- The first nodes of the bodies of a fork are all different. -/
theorem Within.nodup_entries :
    ((bodies.map fun body => body.first.target).filter fun id => id ≠ stop.id).Nodup := by
  obtain ⟨-, -, -, -, hnodup, -⟩ := h.nodup_block
  refine hnodup.sublist ?_
  rw [List.map_eq_flatMap, List.filter_flatMap]
  refine List.Sublist.flatMap_right _ fun body hbody => ?_
  obtain ⟨-, ht⟩ | ⟨more, hids⟩ := (h.body hbody).leads.entry
  · simp [ht]
  · rw [hids]
    exact List.filter_sublist.trans (List.Sublist.cons_cons _ (List.nil_sublist _))

omit draws in
/-- When a block is reached, none of its parts is done before those in front of it. -/
theorem Within.fresh_block {done : List String}
    (fresh : ∀ id ∈ (block edge fork bodies stop rest).ids, id ∉ done) :
    (∀ id ∈ bodies.flatMap ids, id ∉ done ++ [fork.id]) ∧
      stop.id ∉ done ++ [fork.id] ++ bodies.flatMap ids ∧
      ∀ id ∈ rest.ids, id ∉ done ++ [fork.id] ++ bodies.flatMap ids ++ [stop.id] := by
  obtain ⟨-, ⟨hfg, hfr, hfb⟩, ⟨hgr, hgb⟩, hbr, -⟩ := h.nodup_block
  simp only [mem_ids_block] at fresh
  simp only [List.mem_append, List.mem_singleton, List.mem_flatMap, not_or, not_exists, not_and]
  refine ⟨?_, ⟨⟨fresh _ (.inr (.inr (.inl rfl))), Ne.symm hfg⟩, hgb⟩, fun id hid => ?_⟩
  · rintro id ⟨body, hbody, hid⟩
    exact ⟨fresh id (.inr (.inl ⟨body, hbody, hid⟩)), fun he => hfb body hbody (he ▸ hid)⟩
  · exact ⟨⟨⟨fresh id (.inr (.inr (.inr hid))), fun he => hfr (he ▸ hid)⟩,
      fun body hbody hin => hbr body hbody id hin hid⟩, fun he => hgr (he ▸ hid)⟩

/-- A body with nodes that are not done holds back the aggregator. -/
theorem Within.held {body : Route} (hbody : body ∈ bodies) (nonempty : body.ids ≠ [])
    {done : List String} (fresh : ∀ id ∈ body.ids, id ∉ done) : w.due done stop.id = [] := by
  obtain ⟨last, hlast, hs, ht⟩ := (h.body hbody).leads.exists_last nonempty
  obtain ⟨out, perm, -⟩ := h.parts
  have hin : last ∈ edges :=
    perm.mem_iff.mpr (List.mem_append_left _ (List.mem_flatMap.mpr ⟨body, hbody, hlast⟩))
  exact due_eq_nil (draws.joined_iff.mpr ⟨last, hin, rfl, ht⟩) (fresh _ hs)

/-- Once the fork and the nodes of all bodies are done, so is all that leads to the aggregator. -/
theorem Within.leads_to_stop {done : List String} (hfork : fork.id ∈ done)
    (hbodies : ∀ body ∈ bodies, ∀ id ∈ body.ids, id ∈ done) {a : String} (ha : w.Joined a stop.id) :
    a ∈ done := by
  obtain ⟨e, he, rfl, ht⟩ := draws.joined_iff.mp ha
  obtain hs | ⟨body, hbody, -, hs⟩ := h.source_of_stop he ht
  · exact hs ▸ hfork
  · exact hbodies body hbody _ hs

/-- The aggregator is held back as long as there are first nodes of bodies that are not done. -/
theorem Within.due_stop_append {more : List Route} (sub : ∀ body ∈ more, body ∈ bodies)
    {done : List String} (fresh : ∀ id ∈ more.flatMap ids, id ∉ done) (ready : List String) :
    w.due done stop.id ++
        ((more.map fun b => b.first.target).filter (fun id => id ≠ stop.id) ++ ready) =
      (more.map fun b => b.first.target).filter (fun id => id ≠ stop.id) ++
        (w.due done stop.id ++ ready) := by
  by_cases hall : ∀ b ∈ more, b.ids = []
  · have hnone : (more.map fun b => b.first.target).filter (fun id => id ≠ stop.id) = [] := by
      refine List.filter_eq_nil_iff.mpr fun id hid => ?_
      obtain ⟨b, hb, rfl⟩ := List.mem_map.mp hid
      simpa using (h.body (sub b hb)).leads.enters_target (hall b hb)
    rw [hnone, List.nil_append, List.nil_append]
  · obtain ⟨b, hb, hne⟩ : ∃ b ∈ more, b.ids ≠ [] := by simpa using hall
    rw [h.held draws (sub b hb) hne fun id hid => fresh id (List.mem_flatMap.mpr ⟨b, hb, hid⟩)]
    rfl

section Releases

variable (listed : (edges.filter fun e => e.source = fork.id) = bodies.map first)
  {done : List String}

include listed

omit h in
theorem successors_fork : w.successors fork.id = bodies.map fun body => body.first.target := by
  rw [draws.successors, listed, List.map_map]
  rfl

/-- The first nodes of the bodies are entered from the fork alone, so it releases them. -/
theorem Within.mem_releases_fork (hfork : fork.id ∉ done) {id : String} (hne : id ≠ stop.id) :
    id ∈ w.releases done fork.id ↔ id ∈ bodies.map fun body => body.first.target := by
  rw [mem_releases hfork, ← mem_successors, successors_fork draws listed]
  refine ⟨And.left, fun hid => ⟨hid, fun a ha => ?_⟩⟩
  obtain ⟨body, hbody, rfl⟩ := List.mem_map.mp hid
  obtain ⟨e, he, rfl, ht⟩ := draws.joined_iff.mp ha
  have hnonempty : body.ids ≠ [] := fun hnil => hne ((h.body hbody).leads.enters_target hnil)
  have hs := (h.body hbody).source_of_entry hnonempty he ht
  exact List.mem_append_right _ (List.mem_singleton.mpr hs)

/-- A fork whose bodies have no nodes releases its aggregator. -/
theorem Within.releases_of_empty (hfork : fork.id ∉ done) (empty : ∀ body ∈ bodies, body.ids = [])
    (ready : ∀ a, w.Joined a stop.id → a ∈ done ++ [fork.id]) :
    w.releases done fork.id = [stop.id] := by
  have htargets : ∀ id ∈ bodies.map (fun body => body.first.target), id = stop.id := by
    intro id hid
    obtain ⟨body, hbody, rfl⟩ := List.mem_map.mp hid
    exact (h.body hbody).leads.enters_target (empty body hbody)
  refine List.perm_singleton.mp
    ((List.perm_ext_iff_of_nodup (w.releases_nodup hfork) (by simp)).mpr fun id => ?_)
  rw [mem_releases hfork, ← mem_successors, successors_fork draws listed, List.mem_singleton]
  constructor
  · exact fun hid => htargets id hid.1
  · rintro rfl
    refine ⟨?_, ready⟩
    cases h.leads with
    | block _ _ _ _ _ _ nonempty _ _ _ _ =>
      obtain ⟨body, hbody⟩ := List.exists_mem_of_ne_nil bodies nonempty
      have hid : body.first.target ∈ bodies.map fun body => body.first.target :=
        List.mem_map_of_mem hbody
      exact htargets _ hid ▸ hid

/-- A fork releases the first nodes of its bodies, or its aggregator when they have no nodes. -/
theorem Within.releases_fork (fresh : ∀ id ∈ fork.id :: bodies.flatMap ids, id ∉ done) :
    w.releases done fork.id =
      (bodies.map fun body => body.first.target).filter (fun id => id ≠ stop.id) ++
        w.due (done ++ [fork.id]) stop.id := by
  have hfork : fork.id ∉ done := fresh _ List.mem_cons_self
  by_cases hall : ∀ body ∈ bodies, body.ids = []
  · -- only the aggregator is entered
    have hnone : (bodies.map fun body => body.first.target).filter (fun id => id ≠ stop.id) = [] := by
      refine List.filter_eq_nil_iff.mpr fun id hid => ?_
      obtain ⟨body, hbody, rfl⟩ := List.mem_map.mp hid
      simpa using (h.body hbody).leads.enters_target (hall body hbody)
    have hready : ∀ a, w.Joined a stop.id → a ∈ done ++ [fork.id] := by
      refine fun a ha => h.leads_to_stop draws (by simp) (fun body hbody id hid => ?_) ha
      rw [hall body hbody] at hid
      cases hid
    rw [h.releases_of_empty draws listed hfork hall hready, hnone, due_eq_self hready,
      List.nil_append]
  · -- some body holds back the aggregator
    obtain ⟨body, hbody, hne⟩ : ∃ body ∈ bodies, body.ids ≠ [] := by simpa using hall
    have hheld : w.due (done ++ [fork.id]) stop.id = [] := by
      refine h.held draws hbody hne fun id hid hin => ?_
      cases List.mem_append.mp hin with
      | inl hin =>
        exact fresh id (List.mem_cons_of_mem _ (List.mem_flatMap.mpr ⟨body, hbody, hid⟩)) hin
      | inr hin => exact h.nodup_block.2.1.2.2 body hbody (List.mem_singleton.mp hin ▸ hid)
    have hstop : ∀ id ∈ w.releases done fork.id, id ≠ stop.id := by
      rintro id hid rfl
      rw [due_eq_self ((mem_releases hfork _).mp hid).2] at hheld
      cases hheld
    have hsub : (w.releases done fork.id).Sublist
        ((bodies.map fun body => body.first.target).filter fun id => id ≠ stop.id) := by
      rw [← successors_fork draws listed,
        ← List.filter_eq_self.mpr fun id hid => decide_eq_true (hstop id hid)]
      exact (runOut_sublist _ _).filter _
    rw [hheld, List.append_nil]
    refine hsub.eq_of_length_le (h.nodup_entries.subperm fun id hid => ?_).length_le
    obtain ⟨hid, hne⟩ := List.mem_filter.mp hid
    exact (h.mem_releases_fork draws listed hfork (by simpa using hne)).mpr hid

end Releases

/-- The bodies of a fork come in order one after the other. -/
theorem Within.run_bodies
    (each : ∀ body ∈ bodies, ∀ done ready, fork.id ∈ done → (∀ id ∈ body.ids, id ∉ done) →
      SortState.run w body.ids.length
          (w.sorting done (w.due done body.first.target ++ ready)) =
        w.sorting (done ++ body.ids) (w.due (done ++ body.ids) stop.id ++ ready))
    {more : List Route} (sub : ∀ body ∈ more, body ∈ bodies) (nodup : (more.flatMap ids).Nodup)
    {done : List String} (hfork : fork.id ∈ done) (fresh : ∀ id ∈ more.flatMap ids, id ∉ done)
    (ready : List String) :
    SortState.run w (more.flatMap ids).length
        (w.sorting done ((more.map fun body => body.first.target).filter (fun id => id ≠ stop.id) ++
          (w.due done stop.id ++ ready))) =
      w.sorting (done ++ more.flatMap ids) (w.due (done ++ more.flatMap ids) stop.id ++ ready) := by
  induction more generalizing done with
  | nil => simp [SortState.run]
  | cons body more ih =>
    have hbody := sub body List.mem_cons_self
    have hmore : ∀ b ∈ more, b ∈ bodies := fun b hb => sub b (List.mem_cons_of_mem _ hb)
    rw [List.flatMap_cons] at nodup fresh ⊢
    obtain ⟨-, hnodup, hdisjoint⟩ := List.nodup_append.mp nodup
    have hfresh : ∀ id ∈ body.ids, id ∉ done := fun id hid => fresh id (List.mem_append_left _ hid)
    obtain ⟨hids, ht⟩ | ⟨tail, hids⟩ := (h.body hbody).leads.entry
    · rw [hids, List.nil_append, List.map_cons, List.filter_cons_of_neg (by simpa using ht)]
      exact ih hmore hnodup hfork fun id hid => fresh id (List.mem_append_right _ hid)
    · have hne : body.ids ≠ [] := by simp [hids]
      have hstop : body.first.target ≠ stop.id := by
        intro he
        have hgb := h.nodup_block.2.2.1.2 body hbody
        exact hgb (by rw [hids, he]; exact List.mem_cons_self)
      have hfirst := (h.body hbody).due_entry draws hne hfork
      have hheld : w.due done stop.id = [] := h.held draws hbody hne hfresh
      have hrun := each body hbody done
        ((more.map fun b => b.first.target).filter (fun id => id ≠ stop.id) ++ ready) hfork hfresh
      rw [hfirst, List.singleton_append] at hrun
      have hlater : ∀ id ∈ more.flatMap ids, id ∉ done ++ body.ids := by
        intro id hid hin
        cases List.mem_append.mp hin with
        | inl hin => exact fresh id (List.mem_append_right _ hid) hin
        | inr hin => exact hdisjoint id hin id hid rfl
      have hswap := h.due_stop_append draws hmore hlater ready
      have hrest := ih hmore hnodup (List.mem_append_left body.ids hfork) hlater
      rw [List.map_cons, List.filter_cons_of_pos (by simpa using hstop), hheld, List.nil_append,
        List.length_append, run_add, List.cons_append, hrun, hswap, hrest, List.append_assoc]

end Fork

/-- A sort that has reached a route puts all its nodes in order, and then what it leads to if
nothing else holds that back. -/
theorem Within.run_route (v : w.Valid) {source target : String} {r : Route}
    (h : Within edges source target r) (arranged : Arranged edges r) {done : List String}
    (hsource : source ∈ done) (fresh : ∀ id ∈ r.ids, id ∉ done) (ready : List String) :
    SortState.run w r.ids.length (w.sorting done (w.due done r.first.target ++ ready)) =
      w.sorting (done ++ r.ids) (w.due (done ++ r.ids) target ++ ready) := by
  have leads := h.leads
  induction leads generalizing done ready with
  | @link _ _ edge _ enters => simp [SortState.run, first, enters]
  | @step source target edge node rest _ enters _ _ _ ih =>
    cases arranged with
    | step arranged =>
      have hnode : node.id ∉ done := fresh _ List.mem_cons_self
      have hentry := h.due_entry draws (by simp) hsource
      have hnext := draws.successors node.id
      rw [h.leaves_step] at hnext
      have hfresh : ∀ id ∈ rest.ids, id ∉ done ++ [node.id] := by
        intro id hid hin
        cases List.mem_append.mp hin with
        | inl hin => exact fresh id (List.mem_cons_of_mem _ hid) hin
        | inr hin =>
          have hdistinct := h.step.distinct
          have hout := (List.nodup_cons.mp hdistinct).1
          exact hout (List.mem_cons_of_mem _ (List.mem_singleton.mp hin ▸ hid))
      have hlast : node.id ∈ done ++ [node.id] := by simp
      have hrest := ih h.step arranged hlast hfresh ready
      rw [hentry, first, enters, ids_step, List.length_cons, SortState.run, List.singleton_append,
        v.step_sorting hnode, releases_single hnode hnext, hrest, List.append_assoc,
        List.singleton_append]
  | @block source target edge fork stop bodies rest _ enters _ _ _ _ _ _ _ _ _ ihBodies ih =>
    cases arranged with
    | block listed inside arranged =>
      obtain ⟨hbodies, hstop, hafter⟩ := h.fresh_block fresh
      have hnodup := h.nodup_block.2.2.2.2.1
      have hfork : fork.id ∉ done := fresh _ (mem_ids_block.mpr (.inl rfl))
      have hentry := h.due_entry draws (by simp) hsource
      rw [first, enters] at hentry
      -- the fork comes first, then all of its bodies
      have hblock : ∀ id ∈ fork.id :: bodies.flatMap ids, id ∉ done := by
        intro id hid
        cases List.mem_cons.mp hid with
        | inl hid => exact hid ▸ hfork
        | inr hid => exact fun hin => hbodies id hid (List.mem_append_left _ hin)
      have hopened : fork.id ∈ done ++ [fork.id] := by simp
      have hreleases := h.releases_fork draws listed hblock
      have hinside := h.run_bodies draws
        (fun body hbody d r hd hf => ihBodies body hbody (h.body hbody) (inside body hbody) hd hf r)
        (fun _ hb => hb) hnodup hopened hbodies ready
      -- then the aggregator
      have hclosed : w.due (done ++ [fork.id] ++ bodies.flatMap ids) stop.id = [stop.id] :=
        due_eq_self fun a => h.leads_to_stop draws (List.mem_append_left _ hopened)
          fun body hbody id hid =>
            List.mem_append_right _ (List.mem_flatMap.mpr ⟨body, hbody, hid⟩)
      have hnext := draws.successors stop.id
      rw [h.leaves_stop] at hnext
      have hlast : stop.id ∈ done ++ [fork.id] ++ bodies.flatMap ids ++ [stop.id] := by simp
      have hrest := ih h.after arranged hlast hafter ready
      have hids : done ++ (block edge fork bodies stop rest).ids =
          done ++ [fork.id] ++ bodies.flatMap ids ++ [stop.id] ++ rest.ids := by simp
      have hlength : (block edge fork bodies stop rest).ids.length =
          (bodies.flatMap ids).length + (rest.ids.length + 1) + 1 := by simp
      rw [first, enters, hentry, hids, hlength, SortState.run, List.singleton_append,
        v.step_sorting hfork, hreleases, run_add, List.append_assoc, hinside, hclosed,
        SortState.run, List.singleton_append, v.step_sorting hstop, releases_single hstop hnext,
        hrest]

section Whole

variable {source target : String} {r : Route} (h : Within edges source target r)
  (all : edges.Perm r.edges) (nodes : w.nodes.Perm (source :: (r.ids ++ [target])))

include h all nodes

/-- When there is nothing but the route, its source alone is entered by nothing. -/
theorem Within.ready_source (v : w.Valid) :
    (w.nodes.filter fun id => w.unfollowed [] id = 0) = [source] := by
  obtain ⟨⟨last, hlast, htarget⟩, hentered⟩ := h.leads.entered
  obtain ⟨hout, -⟩ := List.nodup_cons.mp h.distinct
  refine List.perm_singleton.mp ((List.perm_ext_iff_of_nodup (v.nodup.filter _) (by simp)).mpr ?_)
  intro id
  rw [List.mem_filter, decide_eq_true_eq, unfollowed_eq_zero, List.mem_singleton]
  constructor
  · rintro ⟨hid, hfree⟩
    have hnone : ∀ e ∈ r.edges, e.target ≠ id := fun e he hid =>
      List.not_mem_nil (hfree e.source (draws.joined_iff.mpr ⟨e, all.mem_iff.mpr he, rfl, hid⟩))
    cases List.mem_cons.mp (nodes.mem_iff.mp hid) with
    | inl hid => exact hid
    | inr hid =>
      cases List.mem_append.mp hid with
      | inl hid =>
        obtain ⟨e, he, ht⟩ := hentered id hid
        exact absurd ht (hnone e he)
      | inr hid => exact absurd (htarget.trans (List.mem_singleton.mp hid).symm) (hnone last hlast)
  · rintro rfl
    refine ⟨nodes.mem_iff.mpr List.mem_cons_self, fun a ha => ?_⟩
    obtain ⟨e, he, -, hid⟩ := draws.joined_iff.mp ha
    rw [← hid] at hout
    exact absurd (List.mem_cons.mpr (h.leads.ends e (all.mem_iff.mp he)).2) hout

/-- When there is nothing but the route, the nodes come in the order of the route. -/
theorem Within.topologicalOrder (v : w.Valid) (arranged : Arranged edges r) :
    w.topologicalOrder = .ok (source :: (r.ids ++ [target])) := by
  have hdistinct := h.distinct
  simp only [List.nodup_cons, List.mem_cons, not_or] at hdistinct
  obtain ⟨⟨hst, hs⟩, ht, hnodup⟩ := hdistinct
  have hfirst := draws.successors source
  have hall : edges.Perm (r.edges ++ []) := by rwa [List.append_nil]
  rw [filter_source h.leads hs hall (by simp)] at hfirst
  have hsource : source ∈ [source] := List.mem_singleton_self source
  have hroute := h.run_route draws v arranged hsource
    (fun id hid hin => hs (List.mem_singleton.mp hin ▸ hid)) []
  have hclosed : w.due ([source] ++ r.ids) target = [target] := by
    refine due_eq_self fun a ha => ?_
    obtain ⟨e, he, rfl, -⟩ := draws.joined_iff.mp ha
    exact List.mem_cons.mpr (h.leads.ends e (all.mem_iff.mp he)).1
  have hend : target ∉ [source] ++ r.ids := by simp [Ne.symm hst, ht]
  have hreleased : w.released = source :: (r.ids ++ [target]) := by
    unfold Wiring.released
    have hlength : w.nodes.length = r.ids.length + 1 + 1 := by simp [nodes.length_eq]
    rw [sortStart_eq, h.ready_source draws all nodes v, hlength, SortState.run,
      v.step_sorting (by simp), releases_single (by simp) hfirst, run_add, List.nil_append, hroute,
      hclosed, SortState.run, List.append_nil, v.step_sorting hend]
    simp [SortState.run, sorting]
  unfold Wiring.topologicalOrder
  rw [hreleased]
  exact if_pos nodes.length_eq.symm

end Whole

end Runs

end Route

end WorkflowCompiler
