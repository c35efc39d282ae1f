import WorkflowCompiler.Proofs.Compile.Routes

/-!
# Routes among the connections of a graph

Within a graph, the nodes of a route are left and entered by its own connections alone. As the
chains of a fork may be listed in any order, they can be listed in the order in which the graph
lists the connections that leave the fork.
-/
namespace WorkflowCompiler

namespace Route

/-- A route from one node to another whose nodes no other connection leaves or enters. -/
structure Within (edges : List EditorEdge) (source target : String) (r : Route) : Prop where
  leads : r.Leads source target
  distinct : (source :: target :: r.ids).Nodup
  apart : ∃ out, edges.Perm (r.edges ++ out) ∧ ∀ e ∈ out, e.source ∉ r.ids ∧ e.target ∉ r.ids

theorem filter_source {edges out : List EditorEdge} {source target : String} {r : Route}
    (leads : r.Leads source target) (fresh : source ∉ r.ids) (perm : edges.Perm (r.edges ++ out))
    (sole : ∀ e ∈ out, e.source ≠ source) :
    edges.filter (fun e => e.source = source) = [r.first] := by
  obtain ⟨more, hedges, hmore⟩ := leads.edges_eq
  have hout : out.filter (fun e => e.source = source) = [] :=
    List.filter_eq_nil_iff.mpr fun e he => by simpa using sole e he
  have hrest : more.filter (fun e => e.source = source) = [] := by
    refine List.filter_eq_nil_iff.mpr fun e he => ?_
    have hne : e.source ≠ source := fun hs => fresh (hs ▸ hmore e he)
    simpa using hne
  refine List.perm_singleton.mp ((perm.filter _).trans ?_)
  rw [List.filter_append, hout, hedges, List.filter_cons_of_pos (by simpa using leads.source_first),
    hrest]
  exact .refl _

section Step

variable {edges : List EditorEdge} {source target : String} {edge : EditorEdge}
  {node : EditorNode} {rest : Route} (h : Within edges source target (.step edge node rest))

include h

theorem Within.step : Within edges node.id target rest := by
  obtain ⟨leads, distinct, out, perm, apart⟩ := h
  cases leads with
  | step leaves enters _ _ after =>
    simp only [ids_step, List.nodup_cons, List.mem_cons, not_or] at distinct
    obtain ⟨⟨-, hsn, hs⟩, ⟨htn, ht⟩, hn, nodup⟩ := distinct
    refine ⟨after, ?_, edge :: out, perm.trans List.perm_middle.symm, ?_⟩
    · simp only [List.nodup_cons, List.mem_cons, not_or]
      exact ⟨⟨Ne.symm htn, hn⟩, ht, nodup⟩
    · intro e he
      rcases List.mem_cons.mp he with rfl | he
      · exact ⟨leaves ▸ hs, enters ▸ hn⟩
      · have happart := apart e he
        simp only [ids_step, List.mem_cons, not_or] at happart
        exact ⟨happart.1.2, happart.2.2⟩

/-- One connection leaves a plain node. -/
theorem Within.leaves_step : edges.filter (fun e => e.source = node.id) = [rest.first] := by
  obtain ⟨leads, distinct, out, perm, apart⟩ := h
  cases leads with
  | step leaves enters _ _ after =>
    simp only [ids_step, List.nodup_cons, List.mem_cons, not_or] at distinct
    obtain ⟨⟨-, hsn, hs⟩, ⟨htn, ht⟩, hn, nodup⟩ := distinct
    refine filter_source after hn (perm.trans List.perm_middle.symm) fun e he => ?_
    rcases List.mem_cons.mp he with rfl | he
    · exact leaves ▸ hsn
    · have happart := (apart e he).1
      simp only [ids_step, List.mem_cons, not_or] at happart
      exact happart.1

end Step

section Block

variable {edges : List EditorEdge} {source target : String} {edge : EditorEdge}
  {fork stop : EditorNode} {bodies : List Route} {rest : Route}
  (h : Within edges source target (.block edge fork bodies stop rest))

include h

/-- The nodes of a block are all different. -/
theorem Within.nodup_block :
    (∀ id ∈ [source, target], id ≠ fork.id ∧ id ≠ stop.id ∧ id ∉ rest.ids ∧
        ∀ body ∈ bodies, id ∉ body.ids) ∧
      (fork.id ≠ stop.id ∧ fork.id ∉ rest.ids ∧ ∀ body ∈ bodies, fork.id ∉ body.ids) ∧
      (stop.id ∉ rest.ids ∧ ∀ body ∈ bodies, stop.id ∉ body.ids) ∧
      (∀ body ∈ bodies, ∀ id ∈ body.ids, id ∉ rest.ids) ∧ (bodies.flatMap ids).Nodup ∧
      rest.ids.Nodup := by
  have distinct := h.distinct
  rw [ids_block] at distinct
  simp only [List.nodup_cons, List.nodup_append, List.mem_cons, List.mem_append, List.mem_flatMap,
    not_or, not_exists, not_and] at distinct
  obtain ⟨⟨-, hs⟩, ht, hf, hb, ⟨hg, hr⟩, hbr⟩ := distinct
  refine ⟨?_, ⟨hf.2.1, hf.2.2, hf.1⟩, ⟨hg, fun body hbody hin => ?_⟩, fun body hbody id hid hin => ?_,
    hb, hr⟩
  · intro id hid
    rcases List.mem_cons.mp hid with rfl | hid
    · exact ⟨hs.1, hs.2.2.1, hs.2.2.2, hs.2.1⟩
    · obtain rfl := List.mem_singleton.mp hid
      exact ⟨ht.1, ht.2.2.1, ht.2.2.2, ht.2.1⟩
  · exact hbr stop.id ⟨body, hbody, hin⟩ stop.id (.inl rfl) rfl
  · exact hbr id ⟨body, hbody, hid⟩ id (.inr hin) rfl

/-- What the connections of a block and what follows it join. -/
theorem Within.parts : ∃ out, edges.Perm (bodies.flatMap Route.edges ++ (rest.edges ++ out)) ∧
    (∀ e ∈ out, (e.source ≠ fork.id ∧ e.source ≠ stop.id ∧ e.source ∉ rest.ids ∧
        ∀ body ∈ bodies, e.source ∉ body.ids) ∧
      e.target ≠ stop.id ∧ e.target ∉ rest.ids ∧ ∀ body ∈ bodies, e.target ∉ body.ids) ∧
    (∀ e ∈ rest.edges, (e.source = stop.id ∨ e.source ∈ rest.ids) ∧
      (e.target = target ∨ e.target ∈ rest.ids)) ∧
    ∀ body ∈ bodies, ∀ e ∈ body.edges, (e.source = fork.id ∨ e.source ∈ body.ids) ∧
      (e.target = stop.id ∨ e.target ∈ body.ids) := by
  obtain ⟨hends, ⟨hfg, hfr, hfb⟩, -⟩ := h.nodup_block
  obtain ⟨leads, -, out, perm, apart⟩ := h
  cases leads with
  | block leaves enters _ _ _ _ _ _ _ inside after =>
    refine ⟨edge :: out, ?_, ?_, after.ends, fun body hbody => (inside body hbody).ends⟩
    · rw [edges_block] at perm
      refine perm.trans ?_
      rw [List.cons_append, List.append_assoc, ← List.append_assoc, ← List.append_assoc]
      exact List.perm_middle.symm
    · intro e he
      cases List.mem_cons.mp he with
      | inl he =>
        obtain ⟨hsf, hsg, hsr, hsb⟩ := hends source List.mem_cons_self
        rw [he, leaves, enters]
        exact ⟨⟨hsf, hsg, hsr, hsb⟩, hfg, hfr, hfb⟩
      | inr he =>
        have happart := apart e he
        simp only [mem_ids_block, not_or, not_exists, not_and] at happart
        obtain ⟨⟨hsf, hsb, hsg, hsr⟩, -, htb, htg, htr⟩ := happart
        exact ⟨⟨hsf, hsg, hsr, hsb⟩, htg, htr, htb⟩

theorem Within.after : Within edges stop.id target rest := by
  obtain ⟨hends, -, ⟨hgr, hgb⟩, hbr, -, hnodup⟩ := h.nodup_block
  obtain ⟨out, perm, hout, -, hbodies⟩ := h.parts
  obtain ⟨-, htg, htr, -⟩ := hends target (by simp)
  cases h.leads with
  | block _ _ _ _ _ _ _ _ _ _ after =>
    refine ⟨after, ?_, bodies.flatMap Route.edges ++ out, ?_, ?_⟩
    · simp only [List.nodup_cons, List.mem_cons, not_or]
      exact ⟨⟨Ne.symm htg, hgr⟩, htr, hnodup⟩
    · refine perm.trans ?_
      rw [← List.append_assoc, ← List.append_assoc]
      exact List.perm_append_comm.append_right out
    · intro e he
      cases List.mem_append.mp he with
      | inl he =>
        obtain ⟨body, hbody, he⟩ := List.mem_flatMap.mp he
        obtain ⟨hs, ht⟩ := hbodies body hbody e he
        constructor
        · exact hs.elim (fun hs => hs ▸ h.nodup_block.2.1.2.1) (hbr body hbody _)
        · exact ht.elim (fun ht => ht ▸ hgr) (hbr body hbody _)
      | inr he =>
        obtain ⟨⟨-, -, hs, -⟩, -, ht, -⟩ := hout e he
        exact ⟨hs, ht⟩

/-- One connection leaves an aggregator. -/
theorem Within.leaves_stop : edges.filter (fun e => e.source = stop.id) = [rest.first] := by
  obtain ⟨-, ⟨hfg, -, -⟩, ⟨hgr, hgb⟩, -⟩ := h.nodup_block
  obtain ⟨out, perm, hout, -, hbodies⟩ := h.parts
  cases h.leads with
  | block _ _ _ _ _ _ _ _ _ _ after =>
    have hperm : edges.Perm (rest.edges ++ (bodies.flatMap Route.edges ++ out)) := by
      refine perm.trans ?_
      rw [← List.append_assoc, ← List.append_assoc]
      exact List.perm_append_comm.append_right out
    refine filter_source after hgr hperm fun e he => ?_
    cases List.mem_append.mp he with
    | inl he =>
      obtain ⟨body, hbody, he⟩ := List.mem_flatMap.mp he
      obtain ⟨hs, -⟩ := hbodies body hbody e he
      exact hs.elim (fun hs => hs ▸ hfg) fun hs he => hgb body hbody (he ▸ hs)
    | inr he => exact (hout e he).1.2.1

/-- The connections that leave a fork are those that its bodies start with. -/
theorem Within.leaves_fork :
    (edges.filter fun e => e.source = fork.id).Perm (bodies.map first) := by
  obtain ⟨-, ⟨hfg, hfr, hfb⟩, -⟩ := h.nodup_block
  obtain ⟨out, perm, hout, hrest, -⟩ := h.parts
  cases h.leads with
  | block _ _ _ _ _ _ _ _ _ inside _ =>
    have hnone : (rest.edges ++ out).filter (fun e => e.source = fork.id) = [] := by
      refine List.filter_eq_nil_iff.mpr fun e he => ?_
      have hne : e.source ≠ fork.id := by
        cases List.mem_append.mp he with
        | inl he => exact (hrest e he).1.elim (fun hs he => hfg (he ▸ hs)) fun hs he => hfr (he ▸ hs)
        | inr he => exact (hout e he).1.1
      simpa using hne
    have hfirst : (bodies.flatMap Route.edges).filter (fun e => e.source = fork.id) =
        bodies.map first := by
      rw [List.filter_flatMap, List.map_eq_flatMap]
      refine List.flatMap_congr fun body hbody => ?_
      have hall : body.edges.Perm (body.edges ++ []) := by rw [List.append_nil]
      exact filter_source (inside body hbody) (hfb body hbody) hall (by simp)
    refine (perm.filter _).trans ?_
    rw [List.filter_append, hfirst, hnone, List.append_nil]

omit h in
/-- Where no node is listed twice, no other body has a node of this one. -/
theorem apart_of_nodup_ids {before behind : List Route} {body : Route}
    (nodup : ((before ++ body :: behind).flatMap ids).Nodup) {other : Route}
    (hother : other ∈ before ++ behind) {id : String} (hid : id ∈ other.ids) : id ∉ body.ids := by
  rw [List.flatMap_append, List.flatMap_cons] at nodup
  obtain ⟨-, hright, hleft⟩ := List.nodup_append.mp nodup
  intro hin
  have happart := (List.nodup_append.mp hright).2.2 id hin id
  cases List.mem_append.mp hother with
  | inl hother =>
    exact hleft id (List.mem_flatMap.mpr ⟨other, hother, hid⟩) id (List.mem_append_left _ hin) rfl
  | inr hother => exact happart (List.mem_flatMap.mpr ⟨other, hother, hid⟩) rfl

theorem Within.body {body : Route} (hbody : body ∈ bodies) :
    Within edges fork.id stop.id body := by
  obtain ⟨hends, ⟨hfg, hfr, hfb⟩, ⟨hgr, hgb⟩, hbr, hnodup, -⟩ := h.nodup_block
  obtain ⟨out, perm, hout, hrest, hbodies⟩ := h.parts
  obtain ⟨-, -, -, hsource⟩ := hends source (by simp)
  obtain ⟨-, -, -, htarget⟩ := hends target (by simp)
  cases h.leads with
  | block _ _ _ _ _ _ _ _ _ inside _ =>
    obtain ⟨before, behind, rfl⟩ := List.append_of_mem hbody
    have happart : ∀ other ∈ before ++ behind, ∀ id ∈ other.ids, id ∉ body.ids :=
      fun other hother id hid => apart_of_nodup_ids hnodup hother hid
    have hmem : before ++ behind ⊆ before ++ body :: behind :=
      ((List.sublist_cons_self body behind).append_left before).subset
    rw [List.flatMap_append, List.flatMap_cons] at hnodup perm
    refine ⟨inside body hbody, ?_,
      (before ++ behind).flatMap Route.edges ++ (rest.edges ++ out), ?_, ?_⟩
    · simp only [List.nodup_cons, List.mem_cons, not_or]
      exact ⟨⟨hfg, hfb body hbody⟩, hgb body hbody,
        (List.nodup_append.mp (List.nodup_append.mp hnodup).2.1).1⟩
    · refine perm.trans ?_
      rw [List.flatMap_append, ← List.append_assoc body.edges]
      exact (List.perm_append_comm_assoc _ _ _).append_right _
    · intro e he
      cases List.mem_append.mp he with
      | inl he =>
        obtain ⟨other, hother, he⟩ := List.mem_flatMap.mp he
        obtain ⟨hs, ht⟩ := hbodies other (hmem hother) e he
        constructor
        · exact hs.elim (fun hs => hs ▸ hfb body hbody) (happart other hother _)
        · exact ht.elim (fun ht => ht ▸ hgb body hbody) (happart other hother _)
      | inr he =>
        cases List.mem_append.mp he with
        | inl he =>
          obtain ⟨hs, ht⟩ := hrest e he
          constructor
          · exact hs.elim (fun hs => hs ▸ hgb body hbody) fun hs hin => hbr body hbody _ hin hs
          · exact ht.elim (fun ht => ht ▸ htarget body hbody) fun ht hin => hbr body hbody _ hin ht
        | inr he =>
          obtain ⟨⟨-, -, -, hs⟩, -, -, ht⟩ := hout e he
          exact ⟨hs body hbody, ht body hbody⟩

end Block

/-- The connections that leave a fork leave it by different ports, which it declares. -/
structure Fans (edges : List EditorEdge) (fork : EditorNode) : Prop where
  ports : (fork.declaredCases.map ForkCase.port).Nodup
  keys : (fork.declaredCases.map ForkCase.key).Nodup
  distinct : ((edges.filter fun e => e.source = fork.id).map Branching.portOf).Nodup
  declared : ∀ e ∈ edges, e.source = fork.id →
    Branching.portOf e ∈ fork.declaredCases.map ForkCase.port

theorem Within.fans_fork {edges : List EditorEdge} {source target : String} {edge : EditorEdge}
    {fork stop : EditorNode} {bodies : List Route} {rest : Route}
    (h : Within edges source target (.block edge fork bodies stop rest)) : Fans edges fork := by
  have hleaves := h.leaves_fork
  cases h.leads with
  | block _ _ _ _ ports keys _ distinct declared =>
    have hports := hleaves.map Branching.portOf
    rw [List.map_map] at hports
    refine ⟨ports, keys, hports.nodup_iff.mpr distinct, fun e he hs => ?_⟩
    have hfirst := hleaves.mem_iff.mp (List.mem_filter.mpr ⟨he, by simpa using hs⟩)
    obtain ⟨body, hbody, rfl⟩ := List.mem_map.mp hfirst
    exact declared body hbody

theorem Within.fans {edges : List EditorEdge} {source target : String} {r : Route}
    (h : Within edges source target r) {raw : EditorNode} (hraw : raw ∈ r.nodes)
    (isFork : (Node.ofEditor raw).isFork = true) : Fans edges raw := by
  have leads := h.leads
  induction leads with
  | link => cases hraw
  | step _ _ notFork _ _ ih =>
    cases List.mem_cons.mp hraw with
    | inl hraw => simp [hraw ▸ isFork] at notFork
    | inr hraw => exact ih h.step hraw
  | @block _ _ _ fork stop bodies rest _ _ _ isAggregator _ _ _ _ _ _ _ ihBodies ih =>
    rw [nodes_block] at hraw
    cases List.mem_cons.mp hraw with
    | inl hraw => exact hraw ▸ h.fans_fork
    | inr hraw =>
      cases List.mem_append.mp hraw with
      | inl hraw =>
        obtain ⟨body, hbody, hin⟩ := List.mem_flatMap.mp hraw
        exact ihBodies body hbody (h.body hbody) hin
      | inr hraw =>
        cases List.mem_cons.mp hraw with
        | inl hraw => simp [hraw, Node.not_isFork_of_isAggregator isAggregator] at isFork
        | inr hraw => exact ih h.after hraw

/-- The same route with the bodies of its forks listed in some other order. -/
inductive Rearranged : Route → Route → Prop
  | link (edge : EditorEdge) : Rearranged (.link edge) (.link edge)
  | step {edge : EditorEdge} {node : EditorNode} {rest rest' : Route}
      (after : Rearranged rest rest') : Rearranged (.step edge node rest) (.step edge node rest')
  | block {edge : EditorEdge} {fork stop : EditorNode} {bodies bodies' : List Route}
      {rest rest' : Route} (arrange : Route → Route)
      (inside : ∀ body ∈ bodies, Rearranged body (arrange body))
      (perm : (bodies.map arrange).Perm bodies') (after : Rearranged rest rest') :
      Rearranged (.block edge fork bodies stop rest) (.block edge fork bodies' stop rest')

namespace Rearranged

variable {r r' : Route}

theorem first (h : Rearranged r r') : r'.first = r.first := by
  cases h <;> rfl

theorem items (h : Rearranged r r') : r'.items = r.items := by
  induction h with
  | link => rfl
  | step _ ih => rw [Route.items, Route.items, ih]
  | block _ _ _ _ _ ih => rw [Route.items, Route.items, ih]

theorem nodes (h : Rearranged r r') : r.nodes.Perm r'.nodes := by
  induction h with
  | link => exact .refl _
  | step _ ih => exact ih.cons _
  | block arrange _ perm _ ihBodies ih =>
    rw [nodes_block, nodes_block]
    refine .cons _ (.append ?_ (ih.cons _))
    refine (List.Perm.flatMap_left _ ihBodies).trans ?_
    rw [← List.flatMap_map]
    exact perm.flatMap_right _

theorem edges (h : Rearranged r r') : r.edges.Perm r'.edges := by
  induction h with
  | link => exact .refl _
  | step _ ih => exact ih.cons _
  | block arrange _ perm _ ihBodies ih =>
    rw [edges_block, edges_block]
    refine .cons _ (.append ?_ ih)
    refine (List.Perm.flatMap_left _ ihBodies).trans ?_
    rw [← List.flatMap_map]
    exact perm.flatMap_right _

theorem leads (h : Rearranged r r') {source target : String} (leads : r.Leads source target) :
    r'.Leads source target := by
  induction h generalizing source target with
  | link => exact leads
  | step _ ih =>
    cases leads with
    | step leaves enters notFork notMarker after =>
      exact .step leaves enters notFork notMarker (ih after)
  | @block edge fork stop bodies bodies' rest rest' arrange inside perm _ ihBodies ih =>
    cases leads with
    | block leaves enters isFork isAggregator ports keys nonempty distinct declared bodiesLead after =>
      have hport : ∀ body ∈ bodies, (arrange body).port = body.port := by
        intro body hbody
        rw [port, port, (inside body hbody).first]
      have hports : (bodies.map port).Perm (bodies'.map port) := by
        have hmap := perm.map port
        have hsame : (bodies.map arrange).map port = bodies.map port := by
          rw [List.map_map]
          exact List.map_congr_left hport
        exact hsame ▸ hmap
      refine .block leaves enters isFork isAggregator ports keys ?_ ?_ ?_ ?_ (ih after)
      · rintro rfl
        exact nonempty (List.map_eq_nil_iff.mp perm.eq_nil)
      · exact hports.nodup_iff.mp distinct
      · intro body hbody
        obtain ⟨old, hold, rfl⟩ := List.mem_map.mp (perm.mem_iff.mpr hbody)
        exact hport old hold ▸ declared old hold
      · intro body hbody
        obtain ⟨old, hold, rfl⟩ := List.mem_map.mp (perm.mem_iff.mpr hbody)
        exact ihBodies old hold (bodiesLead old hold)

end Rearranged

theorem Within.rearranged {edges : List EditorEdge} {source target : String} {r r' : Route}
    (h : Within edges source target r) (arranged : Rearranged r r') :
    Within edges source target r' := by
  obtain ⟨leads, distinct, out, perm, apart⟩ := h
  have hids : r.ids.Perm r'.ids := arranged.nodes.map EditorNode.id
  refine ⟨arranged.leads leads, ?_, out, perm.trans (arranged.edges.append_right out), ?_⟩
  · exact ((hids.cons target).cons source).nodup_iff.mp distinct
  · intro e he
    rw [← hids.mem_iff, ← hids.mem_iff]
    exact apart e he

/-- Each fork lists its bodies in the order in which these connections leave it. -/
inductive Arranged (edges : List EditorEdge) : Route → Prop
  | link (edge : EditorEdge) : Arranged edges (.link edge)
  | step {edge : EditorEdge} {node : EditorNode} {rest : Route} (after : Arranged edges rest) :
      Arranged edges (.step edge node rest)
  | block {edge : EditorEdge} {fork stop : EditorNode} {bodies : List Route} {rest : Route}
      (listed : (edges.filter fun e => e.source = fork.id) = bodies.map first)
      (inside : ∀ body ∈ bodies, Arranged edges body) (after : Arranged edges rest) :
      Arranged edges (.block edge fork bodies stop rest)

/-- The bodies of forks can be listed in the order of a graph. -/
theorem Within.exists_arranged {edges : List EditorEdge} {source target : String} {r : Route}
    (h : Within edges source target r) : ∃ r', Rearranged r r' ∧ Arranged edges r' := by
  have leads := h.leads
  induction leads with
  | link => exact ⟨_, .link _, .link _⟩
  | step _ _ _ _ _ ih =>
    obtain ⟨rest', hrest, arranged⟩ := ih h.step
    exact ⟨_, .step hrest, .step arranged⟩
  | @block source target edge fork stop bodies rest _ _ _ _ _ _ _ _ _ _ _ ihBodies ih =>
    obtain ⟨rest', hrest, arranged⟩ := ih h.after
    have heach : ∀ body, ∃ body', body ∈ bodies → Rearranged body body' ∧ Arranged edges body' := by
      intro body
      by_cases hbody : body ∈ bodies
      · obtain ⟨body', hb⟩ := ihBodies body hbody (h.body hbody)
        exact ⟨body', fun _ => hb⟩
      · exact ⟨body, fun hin => absurd hin hbody⟩
    choose arrange harrange using heach
    have hfirst : (bodies.map arrange).map first = bodies.map first := by
      rw [List.map_map]
      exact List.map_congr_left fun body hbody => (harrange body hbody).1.first
    -- the bodies in the order of the connections
    have hperm : (edges.filter fun e => e.source = fork.id).Perm ((bodies.map arrange).map first) :=
      hfirst ▸ h.leaves_fork
    obtain ⟨bodies', hlisted, hbodies⟩ :=
      (congrFun₂ (List.eq_map_comp_perm first) _ _).mpr hperm
    refine ⟨.block edge fork bodies' stop rest', ?_, ?_⟩
    · exact .block arrange (fun body hbody => (harrange body hbody).1) hbodies.symm hrest
    · refine .block hlisted (fun body hbody => ?_) arranged
      obtain ⟨old, hold, rfl⟩ := List.mem_map.mp (hbodies.mem_iff.mp hbody)
      exact (harrange old hold).2

end Route

end WorkflowCompiler
