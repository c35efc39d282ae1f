import WorkflowCompiler.Proofs.Compile.Bundles

/-!
# Straightening routes

A block is straightened innermost first: its bodies, then the block itself, whose fork takes them
in, then what follows it. What is left of a route in the end is the chain of its items.
-/
namespace WorkflowCompiler

open Block Wiring

namespace Route

/-- What stands around the bodies of a block, and the bodies and what follows it, have no node in
common. -/
structure Distinct (source target fork stop : String) (inside after : List String) : Prop where
  source : source ≠ target ∧ source ≠ fork ∧ source ∉ inside ∧ source ≠ stop ∧ source ∉ after
  target : target ≠ fork ∧ target ∉ inside ∧ target ≠ stop ∧ target ∉ after
  fork : fork ∉ inside ∧ fork ≠ stop ∧ fork ∉ after
  stop : stop ∉ inside ∧ stop ∉ after
  apart : ∀ id ∈ inside, id ∉ after
  inside : inside.Nodup
  after : after.Nodup

theorem distinct_of_nodup {source target fork stop : String} {inside after : List String}
    (h : (source :: target :: fork :: (inside ++ stop :: after)).Nodup) :
    Distinct source target fork stop inside after := by
  simp only [List.nodup_cons, List.mem_cons, List.mem_append, not_or] at h
  obtain ⟨hs, ht, hf, hnodup⟩ := h
  obtain ⟨hinside, hrest, hdisjoint⟩ := List.nodup_append.mp hnodup
  obtain ⟨hstop, hafter⟩ := List.nodup_cons.mp hrest
  refine ⟨hs, ht, hf, ⟨fun hin => ?_, hstop⟩, fun id hid hin => ?_, hinside, hafter⟩
  · exact hdisjoint stop hin stop List.mem_cons_self rfl
  · exact hdisjoint id hid id (List.mem_cons_of_mem _ hin) rfl

section Block

variable {data : EditorEdge → LinkData} {origin source target : String} {edge : EditorEdge}
  {fork stop : EditorNode} {bodies : List Route} {rest : Route} {f : Folding} {out : List Arrow}
  (leads : (Route.block edge fork bodies stop rest).Leads origin target)
  (h : Bundle data source target [.block edge fork bodies stop rest] out f)

include h

theorem Bundle.block_distinct :
    Distinct source target fork.id stop.id (bodies.flatMap ids) rest.ids := by
  have hdistinct := h.distinct
  rw [List.flatMap_singleton, ids_block] at hdistinct
  exact distinct_of_nodup hdistinct

theorem Bundle.block_apart {a : Arrow} (ha : a ∈ out) :
    (a.source ≠ fork.id ∧ a.source ∉ bodies.flatMap ids ∧ a.source ≠ stop.id ∧
        a.source ∉ rest.ids) ∧
      a.target ∉ bodies.flatMap ids ∧ a.target ≠ stop.id ∧ a.target ∉ rest.ids := by
  have happart := h.apart a ha
  rw [List.flatMap_singleton, ids_block] at happart
  simp only [List.mem_cons, List.mem_append, not_or] at happart
  exact ⟨happart.1, happart.2.2⟩

theorem Bundle.block_mem {id : String} (hid : id ∈ fork.id :: stop.id :: bodies.flatMap ids) :
    id ∈ f.wiring.nodes := by
  refine h.mem id ?_
  rw [List.flatMap_singleton, ids_block]
  simp only [List.mem_cons, List.mem_append] at hid ⊢
  tauto

theorem Bundle.block_mem_after {id : String} (hid : id ∈ target :: rest.ids) :
    id ∈ f.wiring.nodes := by
  refine h.mem id ?_
  rw [List.flatMap_singleton, ids_block]
  simp only [List.mem_cons, List.mem_append] at hid ⊢
  tauto

include leads

/-- The bodies of a block in the wiring. -/
theorem Bundle.inside : Bundle data fork.id stop.id bodies
    (⟨source, edge.target, data edge⟩ :: (rest.arrows data stop.id ++ out)) f := by
  have distinct := h.block_distinct
  cases leads with
  | block _ enters _ _ _ _ _ _ _ _ after =>
    refine ⟨?_, h.valid, fun id hid => h.block_mem hid, ?_, ?_, ?_⟩
    · simp [distinct.fork.2.1, distinct.fork.1, distinct.stop.1, distinct.inside]
    · have harrows := h.arrows
      rw [List.flatMap_singleton, arrows_block, List.cons_append,
        List.append_assoc] at harrows
      exact harrows.trans List.perm_middle.symm
    · intro a ha
      obtain rfl | ha := List.mem_cons.mp ha
      · exact ⟨distinct.source.2.2.1, enters ▸ distinct.fork.1⟩
      · obtain ha | ha := List.mem_append.mp ha
        · obtain ⟨hs, ht⟩ := after.arrows_ends a ha
          constructor
          · exact hs.elim (fun he => he ▸ distinct.stop.1) fun hin hid => distinct.apart _ hid hin
          · exact ht.elim (fun he => he ▸ distinct.target.2.1) fun hin hid =>
              distinct.apart _ hid hin
        · obtain ⟨⟨-, hs, -⟩, ht, -⟩ := h.block_apart ha
          exact ⟨hs, ht⟩
    · refine h.ready.mono ?_ ?_ fun _ _ => rfl
      · rw [List.flatMap_singleton, nodes_block]
        exact fun raw hraw => List.mem_cons_of_mem _ (List.mem_append_left _ hraw)
      · rw [List.flatMap_singleton, edges_block]
        exact fun e he => List.mem_cons_of_mem _ (List.mem_append_left _ he)

/-- What does not belong to the bodies of a block does not meet them, nor does it leave the fork or
enter the aggregator. -/
theorem Bundle.block_others {a : Arrow} (ha : a ∈ (⟨source, edge.target, data edge⟩ ::
      ((rest.arrows data stop.id).tail ++ out)) ++
        [⟨stop.id, rest.first.target, data rest.first⟩]) :
    a.source ≠ fork.id ∧ a.target ≠ stop.id ∧ a.source ∉ bodies.flatMap ids ∧
      a.target ∉ bodies.flatMap ids := by
  have distinct := h.block_distinct
  cases leads with
  | block _ enters _ _ _ _ _ _ _ _ after =>
    have hrest : ∀ a ∈ rest.arrows data stop.id, a.source ≠ fork.id ∧ a.target ≠ stop.id ∧
        a.source ∉ bodies.flatMap ids ∧ a.target ∉ bodies.flatMap ids := by
      intro a ha
      obtain ⟨hs, ht⟩ := after.arrows_ends a ha
      refine ⟨?_, ?_, ?_, ?_⟩
      · exact hs.elim (fun he => he ▸ Ne.symm distinct.fork.2.1) fun hin he =>
          distinct.fork.2.2 (he ▸ hin)
      · exact ht.elim (fun he => he ▸ distinct.target.2.2.1) fun hin he =>
          distinct.stop.2 (he ▸ hin)
      · exact hs.elim (fun he => he ▸ distinct.stop.1) fun hin hid => distinct.apart _ hid hin
      · exact ht.elim (fun he => he ▸ distinct.target.2.1) fun hin hid => distinct.apart _ hid hin
    obtain ha | ha := List.mem_append.mp ha
    · obtain rfl | ha := List.mem_cons.mp ha
      · exact ⟨distinct.source.2.1, enters ▸ distinct.fork.2.1, distinct.source.2.2.1,
          enters ▸ distinct.fork.1⟩
      · obtain ha | ha := List.mem_append.mp ha
        · exact hrest a (List.mem_of_mem_tail ha)
        · obtain ⟨⟨hs, hs', -⟩, ht, ht', -⟩ := h.block_apart ha
          exact ⟨hs, ht', hs', ht⟩
    · rw [List.mem_singleton.mp ha]
      refine hrest _ ?_
      rw [arrows_eq_cons data rest stop.id stop.id]
      exact List.mem_cons_self

omit h in
/-- The first connection of a body of a block is one of the connections of the block. -/
theorem Leads.first_mem_block {body : Route} (hbody : body ∈ bodies) :
    body.first.source = fork.id ∧
      body.first ∈ (Route.block edge fork bodies stop rest).edges := by
  cases leads with
  | block _ _ _ _ _ _ _ _ _ inside _ =>
    refine ⟨(inside body hbody).source_first, ?_⟩
    obtain ⟨more, hedges, -⟩ := (inside body hbody).edges_eq
    have hfirst : body.first ∈ body.edges := hedges ▸ List.mem_cons_self
    rw [edges_block]
    exact List.mem_cons_of_mem _ (List.mem_append_left _
      (List.mem_flatMap.mpr ⟨body, hbody, hfirst⟩))

/-- What the fork of a block is left with when its bodies have been straightened. -/
theorem Bundle.unfolded {g : Folding}
    (done : Straightened data fork.id bodies
      (⟨source, edge.target, data edge⟩ :: (rest.arrows data stop.id ++ out)) f g) :
    Unfolded data g fork stop bodies ((⟨source, edge.target, data edge⟩ ::
      ((rest.arrows data stop.id).tail ++ out)) ++
        [⟨stop.id, rest.first.target, data rest.first⟩]) := by
  have distinct := h.block_distinct
  have others := fun a => h.block_others leads (a := a)
  have entered := fun (body : Route) (hbody : body ∈ bodies) => leads.first_mem_block hbody
  -- the items of the bodies are among their nodes
  have hsub : (bodies.flatMap fun body => body.items.map EditorNode.id).Sublist
      (bodies.flatMap ids) :=
    List.Sublist.flatMap_right _ fun body _ => (items_sublist body).map EditorNode.id
  cases leads with
  | block _ enters isFork _ ports keys nonempty distinctPorts declared inside after =>
    refine ⟨nonempty, ports, keys, distinctPorts, declared, ?_, done.valid, ?_, ?_, ?_, ?_, ?_⟩
    · intro body hbody c hc hport
      obtain ⟨hsource, hmem⟩ := entered body hbody
      refine h.ready.keys fork (by simp [nodes]) isFork body.first ?_ hsource c hc hport
      rwa [List.flatMap_singleton]
    · have hstays : ∀ id, id ∈ f.wiring.nodes → id ∉ bodies.flatMap ids → id ∈ g.wiring.nodes := by
        intro id hid hout
        refine (done.nodes id).mpr ⟨hid, fun body hbody hin => ?_⟩
        exact absurd (List.mem_flatMap.mpr ⟨body, hbody, hin⟩) hout
      exact ⟨hstays _ (h.block_mem (by simp)) distinct.fork.1,
        hstays _ (h.block_mem (by simp)) distinct.stop.1⟩
    · rw [← List.flatMap_def]
      refine done.arrows.trans (List.Perm.append_left _ (.cons _ ?_))
      rw [arrows_eq_cons data rest stop.id stop.id]
      exact (List.perm_append_singleton _ _).symm
    · intro lane hl
      obtain ⟨body, hbody, rfl⟩ := List.mem_map.mp hl
      exact (inside body hbody).chained data fork.id
    · rw [passedAll_chains]
      refine List.nodup_cons.mpr ⟨?_, List.nodup_cons.mpr ⟨?_, distinct.inside.sublist hsub⟩⟩
      · intro hin
        obtain hin | hin := List.mem_cons.mp hin
        · exact distinct.fork.2.1 hin
        · exact distinct.fork.1 (hsub.subset hin)
      · exact fun hin => distinct.stop.1 (hsub.subset hin)
    · intro a ha
      rw [passedAll_chains]
      obtain ⟨hs, ht, hs', ht'⟩ := others a ha
      exact ⟨hs, ht, fun hin => hs' (hsub.subset hin), fun hin => ht' (hsub.subset hin)⟩

/-- What follows a block in the wiring once the block has been folded. -/
theorem Bundle.after {g g' : Folding}
    (done : Straightened data fork.id bodies
      (⟨source, edge.target, data edge⟩ :: (rest.arrows data stop.id ++ out)) f g)
    (folded : Folded fork stop bodies ((⟨source, edge.target, data edge⟩ ::
      ((rest.arrows data stop.id).tail ++ out)) ++
        [⟨fork.id, rest.first.target, data rest.first⟩]) g g') :
    Bundle data fork.id target [rest] (⟨source, edge.target, data edge⟩ :: out) g' := by
  have distinct := h.block_distinct
  have hstays : ∀ id, id ∈ f.wiring.nodes → id ∉ bodies.flatMap ids → id ≠ stop.id →
      id ∈ g'.wiring.nodes := by
    intro id hid hout hstop
    have hbody : ∀ body ∈ bodies, id ∉ body.ids := fun body hbody hin =>
      hout (List.mem_flatMap.mpr ⟨body, hbody, hin⟩)
    refine (folded.nodes id).mpr ⟨?_, hstop, fun body hb hin => hbody body hb (mem_ids_of_items hin)⟩
    exact (done.nodes id).mpr ⟨hid, fun body hb hin => absurd hin (hbody body hb)⟩
  have hrest : ∀ id ∈ rest.ids, id ∉ bodies.flatMap ids := fun id hid hin =>
    distinct.apart id hin hid
  refine ⟨?_, folded.valid, ?_, ?_, ?_, ?_⟩
  · rw [List.flatMap_singleton]
    simp [distinct.target.1.symm, distinct.fork.2.2, distinct.target.2.2.2, distinct.after]
  · rw [List.flatMap_singleton]
    intro id hid
    obtain rfl | hid := List.mem_cons.mp hid
    · exact hstays _ (h.block_mem (by simp)) distinct.fork.1 distinct.fork.2.1
    obtain rfl | hid' := List.mem_cons.mp hid
    · exact hstays _ (h.block_mem_after hid) distinct.target.2.1 distinct.target.2.2.1
    · exact hstays _ (h.block_mem_after hid) (hrest id hid') fun he => distinct.stop.2 (he ▸ hid')
  · rw [List.flatMap_singleton,
      arrows_eq_cons data rest fork.id stop.id]
    refine folded.arrows.trans ((List.perm_append_singleton _ _).trans ?_)
    refine (List.Perm.swap _ _ _).trans ?_
    rw [← List.cons_append]
    exact List.perm_middle.symm
  · intro a ha
    rw [List.flatMap_singleton]
    obtain rfl | ha := List.mem_cons.mp ha
    · cases leads with
      | block _ enters => exact ⟨distinct.source.2.2.2.2, enters ▸ distinct.fork.2.2⟩
    · obtain ⟨⟨-, -, -, hs⟩, -, -, ht⟩ := h.block_apart ha
      exact ⟨hs, ht⟩
  · refine h.ready.mono ?_ ?_ fun raw hraw => ?_
    · rw [List.flatMap_singleton, List.flatMap_singleton, nodes_block]
      exact fun raw hraw => List.mem_cons_of_mem _
        (List.mem_append_right _ (List.mem_cons_of_mem _ hraw))
    · rw [List.flatMap_singleton, List.flatMap_singleton, edges_block]
      exact fun e he => List.mem_cons_of_mem _ (List.mem_append_right _ he)
    · rw [List.flatMap_singleton] at hraw
      have hid : raw.id ∈ rest.ids := List.mem_map_of_mem hraw
      rw [folded.others _ fun he => distinct.fork.2.2 (he ▸ hid), done.others _ (hrest _ hid)]

omit leads in
/-- Straightening the bodies of a block, folding it and straightening what follows straightens it. -/
theorem Bundle.straightened {g g' g'' : Folding} {inner : List Arrow} {folded : List Arrow}
    (done : Straightened data fork.id bodies inner f g)
    (fold : Folded fork stop bodies folded g g')
    (done' : Straightened data fork.id [rest] (⟨source, edge.target, data edge⟩ :: out) g' g'') :
    Straightened data source [.block edge fork bodies stop rest] out f g'' := by
  have distinct := h.block_distinct
  have hbodies : ∀ id body, body ∈ bodies → id ∈ body.ids → id ≠ fork.id ∧ id ≠ stop.id ∧
      id ∉ rest.ids := by
    intro id body hbody hid
    have hin : id ∈ bodies.flatMap ids := List.mem_flatMap.mpr ⟨body, hbody, hid⟩
    exact ⟨fun he => distinct.fork.1 (he ▸ hin), fun he => distinct.stop.1 (he ▸ hin),
      distinct.apart id hin⟩
  have hothers : ∀ id, id ∉ rest.ids → g''.registry.get? id = g'.registry.get? id := fun id hid =>
    done'.others id (by simpa using hid)
  refine ⟨done'.valid, fun id => ?_, ?_, ?_, fun id hid => ?_⟩
  · rw [done'.nodes, fold.nodes, done.nodes, List.forall_mem_singleton, List.forall_mem_singleton,
      mem_ids_block, items, List.map_cons, List.mem_cons]
    constructor
    · rintro ⟨⟨⟨hid, hinside⟩, hstop, hout⟩, hrest⟩
      refine ⟨hid, ?_⟩
      rintro (he | ⟨body, hbody, hin⟩ | he | hin)
      · exact .inl he
      · exact absurd (hinside body hbody hin) (hout body hbody)
      · exact absurd he hstop
      · exact .inr (hrest hin)
    · rintro ⟨hid, hkept⟩
      have hout : ∀ body ∈ bodies, id ∉ body.ids := by
        intro body hbody hin
        obtain ⟨hfork, -, hrest⟩ := hbodies id body hbody hin
        exact (hkept (.inr (.inl ⟨body, hbody, hin⟩))).elim hfork fun hitem =>
          hrest (mem_ids_of_items hitem)
      refine ⟨⟨⟨hid, fun body hbody hin => absurd hin (hout body hbody)⟩, fun he => ?_,
        fun body hbody hin => hout body hbody (mem_ids_of_items hin)⟩, fun hin => ?_⟩
      · subst he
        exact (hkept (.inr (.inr (.inl rfl)))).elim (Ne.symm distinct.fork.2.1) fun hitem =>
          distinct.stop.2 (mem_ids_of_items hitem)
      · exact (hkept (.inr (.inr (.inr hin)))).resolve_left fun he => distinct.fork.2.2 (he ▸ hin)
  · have harrows := done'.arrows
    rw [List.flatMap_singleton] at harrows ⊢
    exact harrows.trans List.perm_middle
  · intro r hr
    obtain rfl := List.mem_singleton.mp hr
    obtain ⟨node, b, branched⟩ := fold.branched
    refine .block { branched with held := (hothers _ distinct.fork.2.2).trans branched.held }
      (fun body hbody => ?_) (done'.filled rest List.mem_cons_self)
    refine (done.filled body hbody).of_eq fun id hid => ?_
    obtain ⟨hfork, -, hrest⟩ := hbodies id body hbody hid
    rw [hothers id hrest, fold.others id hfork]
  · rw [List.flatMap_singleton, ids_block, List.mem_cons,
      List.mem_append, List.mem_cons, not_or, not_or, not_or] at hid
    rw [hothers id hid.2.2.2, fold.others id hid.1, done.others id hid.2.1]

end Block

/-- A block is straightened innermost first. -/
theorem straightens_block {data : EditorEdge → LinkData} {origin target : String}
    {edge : EditorEdge} {fork stop : EditorNode} {bodies : List Route} {rest : Route}
    (leads : (Route.block edge fork bodies stop rest).Leads origin target)
    (inside : Straightens data fork.id stop.id bodies)
    (after : Straightens data fork.id target [rest]) (source : String) :
    Straightens data source target [.block edge fork bodies stop rest] := by
  intro f out h
  obtain ⟨g, hinside, done⟩ := inside f _ (h.inside leads)
  have unfolded := h.unfolded leads done
  have isFork : (Node.ofEditor fork).isFork = true := by
    cases leads with
    | block _ _ isFork => exact isFork
  obtain ⟨node, b, held, branching, cases⟩ := h.ready.forks fork (by simp [nodes]) isFork
  rw [← done.others fork.id h.block_distinct.fork.1] at held
  have hout : ∀ a ∈ (⟨source, edge.target, data edge⟩ : Arrow) ::
      ((rest.arrows data stop.id).tail ++ out), a.source ≠ stop.id := by
    have distinct := h.block_distinct
    intro a ha
    cases leads with
    | block _ _ _ _ _ _ _ _ _ _ rests =>
      obtain rfl | ha := List.mem_cons.mp ha
      · exact distinct.source.2.2.2.1
      obtain ha | ha := List.mem_append.mp ha
      · exact fun he => distinct.stop.2 (he ▸ rests.source_of_tail a ha)
      · exact (h.block_apart ha).1.2.2.1
  obtain ⟨g', hfold, folded⟩ := unfolded.fold hout rfl held branching cases
  obtain ⟨g'', hafter, done'⟩ := after g' _ (h.after leads done folded)
  refine ⟨g'', ?_, h.straightened done folded done'⟩
  rw [List.flatMap_singleton] at hafter ⊢
  rw [pairs_block]
  refine forM_append_eq_ok hinside ?_
  rw [List.forM_eq_forM, List.forM_cons]
  exact Step.run_bind_eq_ok.mpr ⟨(), g', hfold, hafter⟩

/-- Folding the blocks of a route, innermost first, leaves the chain of its items. -/
theorem Leads.straightens {origin target : String} {r : Route} (h : r.Leads origin target)
    (data : EditorEdge → LinkData) (source : String) : Straightens data source target [r] := by
  induction h generalizing source with
  | @link _ target edge _ enters => exact straightens_link data edge source target
  | @step _ _ edge node rest _ enters _ _ _ ih => exact straightens_step enters (ih node.id)
  | block leaves enters isFork isAggregator ports keys nonempty distinct declared inside after
      ihInside ih =>
    refine straightens_block (.block leaves enters isFork isAggregator ports keys nonempty distinct
      declared inside after) (straightens_all inside fun body hbody => ?_) (ih _) source
    exact ihInside body hbody _

end Route

end WorkflowCompiler
