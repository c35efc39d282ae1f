import WorkflowCompiler.Proofs.Compile.Filling

/-!
# Bundles of routes

Routes side by side between two nodes are straightened one after the other: none of them meets
another, so what is done to one of them leaves the others as they are. A route is straightened from
its start on.
-/
namespace WorkflowCompiler

open Block Wiring

namespace Route

/-- Routes from one node to another in a wiring, before their blocks are folded. -/
structure Bundle (data : EditorEdge → LinkData) (source target : String) (rs : List Route)
    (out : List Arrow) (f : Folding) : Prop where
  distinct : (source :: target :: rs.flatMap ids).Nodup
  valid : f.wiring.Valid
  mem : ∀ id ∈ source :: target :: rs.flatMap ids, id ∈ f.wiring.nodes
  arrows : f.wiring.arrows.Perm ((rs.flatMap fun r => r.arrows data source) ++ out)
  apart : ∀ a ∈ out, a.source ∉ rs.flatMap ids ∧ a.target ∉ rs.flatMap ids
  ready : Ready data f.registry (rs.flatMap nodes) (rs.flatMap edges)

/-- What is left of the routes when all their blocks have been folded. -/
structure Straightened (data : EditorEdge → LinkData) (source : String) (rs : List Route)
    (out : List Arrow) (f f' : Folding) : Prop where
  valid : f'.wiring.Valid
  nodes : ∀ id, id ∈ f'.wiring.nodes ↔
    id ∈ f.wiring.nodes ∧ ∀ r ∈ rs, id ∈ r.ids → id ∈ r.items.map EditorNode.id
  arrows : f'.wiring.arrows.Perm ((rs.flatMap fun r => r.chain data source) ++ out)
  filled : ∀ r ∈ rs, Filled f'.registry r
  others : ∀ id, id ∉ rs.flatMap ids → f'.registry.get? id = f.registry.get? id

/-- Folding the blocks of the routes leaves chains, whatever else is in the wiring. -/
def Straightens (data : EditorEdge → LinkData) (source target : String) (rs : List Route) : Prop :=
  ∀ f out, Bundle data source target rs out f → ∃ f',
    (rs.flatMap pairs).forM (fun p => foldOne p.1 p.2) f = (.ok (), f') ∧
      Straightened data source rs out f f'

theorem forM_append_eq_ok {pairs more : List (String × String)} {f g h : Folding}
    (first : pairs.forM (fun p => foldOne p.1 p.2) f = (.ok (), g))
    (rest : more.forM (fun p => foldOne p.1 p.2) g = (.ok (), h)) :
    (pairs ++ more).forM (fun p => foldOne p.1 p.2) f = (.ok (), h) := by
  rw [List.forM_eq_forM, List.forM_append]
  exact Step.run_bind_eq_ok.mpr ⟨(), g, first, rest⟩

section Lists

variable {data : EditorEdge → LinkData} {source target : String}

theorem straightens_nil : Straightens data source target [] := by
  intro f out h
  refine ⟨f, rfl, h.valid, fun id => by simp, h.arrows, by simp, fun _ _ => rfl⟩

theorem ends_of_flatMap {rs : List Route} (arrowsOf : Route → List Arrow)
    (ends : ∀ r ∈ rs, ∀ a ∈ arrowsOf r, (a.source = source ∨ a.source ∈ r.ids) ∧
      (a.target = target ∨ a.target ∈ r.ids)) {a : Arrow} (ha : a ∈ rs.flatMap arrowsOf) :
    a.source ∈ source :: rs.flatMap ids ∧ a.target ∈ target :: rs.flatMap ids := by
  obtain ⟨r, hr, ha⟩ := List.mem_flatMap.mp ha
  obtain ⟨hs, ht⟩ := ends r hr a ha
  have hin : ∀ id ∈ r.ids, id ∈ rs.flatMap ids := fun id hid => List.mem_flatMap.mpr ⟨r, hr, hid⟩
  exact ⟨List.mem_cons.mpr (hs.imp_right (hin _)), List.mem_cons.mpr (ht.imp_right (hin _))⟩

end Lists

/-- Two groups of nodes between two ends, none of which meets another. -/
structure Apart (source target : String) (one others : List String) : Prop where
  ends : source ≠ target
  source : source ∉ one ∧ source ∉ others
  target : target ∉ one ∧ target ∉ others
  apart : ∀ id ∈ one, id ∉ others
  one : one.Nodup
  others : others.Nodup

theorem apart_of_nodup {source target : String} {one others : List String}
    (h : (source :: target :: (one ++ others)).Nodup) : Apart source target one others := by
  simp only [List.nodup_cons, List.mem_cons, List.mem_append, not_or] at h
  obtain ⟨⟨hends, hsource⟩, htarget, hnodup⟩ := h
  obtain ⟨hone, hothers, hdisjoint⟩ := List.nodup_append.mp hnodup
  exact ⟨hends, hsource, htarget, fun id hid hin => hdisjoint id hid id hin rfl, hone, hothers⟩

section Cons

variable {data : EditorEdge → LinkData} {source target : String} {r : Route} {rs : List Route}
  {f : Folding} {out : List Arrow} (leads : ∀ x ∈ r :: rs, ∃ s, x.Leads s target)
  (h : Bundle data source target (r :: rs) out f)

include h

theorem Bundle.cons_distinct : Apart source target r.ids (rs.flatMap ids) := by
  have distinct := h.distinct
  rw [List.flatMap_cons] at distinct
  exact apart_of_nodup distinct

theorem Bundle.cons_mem {id : String}
    (hid : id = source ∨ id = target ∨ id ∈ r.ids ∨ id ∈ rs.flatMap ids) : id ∈ f.wiring.nodes := by
  refine h.mem id ?_
  rw [List.flatMap_cons]
  simpa only [List.mem_cons, List.mem_append] using hid

theorem Bundle.cons_apart {a : Arrow} (ha : a ∈ out) :
    (a.source ∉ r.ids ∧ a.source ∉ rs.flatMap ids) ∧
      a.target ∉ r.ids ∧ a.target ∉ rs.flatMap ids := by
  have happart := h.apart a ha
  rw [List.flatMap_cons] at happart
  simpa only [List.mem_append, not_or] using happart

include leads

/-- The first of some routes, with the others beside it. -/
theorem Bundle.head :
    Bundle data source target [r] ((rs.flatMap fun x => x.arrows data source) ++ out) f := by
  have distinct := h.cons_distinct
  refine ⟨?_, h.valid, fun id hid => h.cons_mem ?_, ?_, ?_, ?_⟩
  · simp [distinct.ends, distinct.source.1, distinct.target.1, distinct.one]
  · simp only [List.mem_cons, List.flatMap_singleton] at hid
    tauto
  · have harrows := h.arrows
    rw [List.flatMap_cons, List.append_assoc] at harrows
    rwa [List.flatMap_singleton]
  · intro a ha
    rw [List.flatMap_singleton]
    cases List.mem_append.mp ha with
    | inl ha =>
      have hends := ends_of_flatMap (fun x => x.arrows data source) (fun x hx =>
        (leads x (List.mem_cons_of_mem _ hx)).elim fun _ hl => hl.arrows_ends) ha
      simp only [List.mem_cons] at hends
      constructor
      · exact hends.1.elim (fun he => he ▸ distinct.source.1) fun hin hid =>
          distinct.apart _ hid hin
      · exact hends.2.elim (fun he => he ▸ distinct.target.1) fun hin hid =>
          distinct.apart _ hid hin
    | inr ha => exact ⟨(h.cons_apart ha).1.1, (h.cons_apart ha).2.1⟩
  · exact h.ready.mono (by simp) (by simp) fun _ _ => rfl

/-- The other routes, once the first one is a chain. -/
theorem Bundle.tail {g : Folding}
    (done : Straightened data source [r] ((rs.flatMap fun x => x.arrows data source) ++ out) f g) :
    Bundle data source target rs (r.chain data source ++ out) g := by
  have distinct := h.cons_distinct
  have hstays : ∀ id, id ∈ f.wiring.nodes → id ∉ r.ids → id ∈ g.wiring.nodes := by
    intro id hid hout
    refine (done.nodes id).mpr ⟨hid, fun x hx hin => ?_⟩
    exact absurd (List.mem_singleton.mp hx ▸ hin) hout
  refine ⟨?_, done.valid, fun id hid => ?_, ?_, ?_, ?_⟩
  · simp [distinct.ends, distinct.source.2, distinct.target.2, distinct.others]
  · obtain rfl | hid := List.mem_cons.mp hid
    · exact hstays _ (h.cons_mem (.inl rfl)) distinct.source.1
    obtain rfl | hid := List.mem_cons.mp hid
    · exact hstays _ (h.cons_mem (.inr (.inl rfl))) distinct.target.1
    · exact hstays id (h.cons_mem (.inr (.inr (.inr hid)))) fun hin => distinct.apart id hin hid
  · have harrows := done.arrows
    rw [List.flatMap_singleton] at harrows
    exact harrows.trans (List.perm_append_comm_assoc _ _ _)
  · intro a ha
    cases List.mem_append.mp ha with
    | inl ha =>
      obtain ⟨_, hl⟩ := leads r List.mem_cons_self
      obtain ⟨hsource, htarget⟩ := hl.chain_ends a ha
      constructor
      · exact hsource.elim (fun he => he ▸ distinct.source.2) (distinct.apart _)
      · exact htarget.elim (fun he => he ▸ distinct.target.2) (distinct.apart _)
    | inr ha => exact ⟨(h.cons_apart ha).1.2, (h.cons_apart ha).2.2⟩
  · refine h.ready.mono (by simp) (by simp) fun raw hraw => done.others _ ?_
    rw [List.flatMap_singleton]
    intro hin
    obtain ⟨x, hx, hraw⟩ := List.mem_flatMap.mp hraw
    exact distinct.apart _ hin (List.mem_flatMap.mpr ⟨x, hx, List.mem_map_of_mem hraw⟩)

omit leads h in
theorem Straightened.cons {inner : List Arrow} {g g' : Folding}
    (apart : ∀ id ∈ r.ids, id ∉ rs.flatMap ids) (done : Straightened data source [r] inner f g)
    (done' : Straightened data source rs (r.chain data source ++ out) g g') :
    Straightened data source (r :: rs) out f g' := by
  refine ⟨done'.valid, fun id => ?_, ?_, ?_, fun id hid => ?_⟩
  · rw [done'.nodes, done.nodes]
    simp only [List.mem_cons, List.not_mem_nil, or_false, forall_eq, forall_eq_or_imp]
    tauto
  · rw [List.flatMap_cons, List.append_assoc]
    exact done'.arrows.trans (List.perm_append_comm_assoc _ _ _)
  · intro x hx
    cases List.mem_cons.mp hx with
    | inl hx =>
      subst hx
      exact (done.filled x List.mem_cons_self).of_eq fun id hid => done'.others id (apart id hid)
    | inr hx => exact done'.filled x hx
  · simp only [List.flatMap_cons, List.mem_append, not_or] at hid
    rw [done'.others id hid.2, done.others id (by simpa using hid.1)]

end Cons

/-- Routes side by side are straightened one after the other. -/
theorem straightens_cons {data : EditorEdge → LinkData} {source target : String} {r : Route}
    {rs : List Route} (leads : ∀ x ∈ r :: rs, ∃ s, x.Leads s target)
    (first : Straightens data source target [r]) (rest : Straightens data source target rs) :
    Straightens data source target (r :: rs) := by
  intro f out h
  obtain ⟨g, hrun, done⟩ := first f _ (h.head leads)
  obtain ⟨g', hrun', done'⟩ := rest g _ (h.tail leads done)
  rw [List.flatMap_singleton] at hrun
  exact ⟨g', forM_append_eq_ok hrun hrun', done.cons h.cons_distinct.apart done'⟩

theorem straightens_all {data : EditorEdge → LinkData} {source target : String}
    {rs : List Route} (leads : ∀ r ∈ rs, r.Leads source target)
    (each : ∀ r ∈ rs, Straightens data source target [r]) : Straightens data source target rs := by
  induction rs with
  | nil => exact straightens_nil
  | cons r rs ih =>
    refine straightens_cons (fun x hx => ⟨source, leads x hx⟩) (each r List.mem_cons_self) ?_
    exact ih (fun x hx => leads x (List.mem_cons_of_mem _ hx)) fun x hx =>
      each x (List.mem_cons_of_mem _ hx)

theorem straightens_link (data : EditorEdge → LinkData) (edge : EditorEdge)
    (source target : String) : Straightens data source target [.link edge] := by
  intro f out h
  refine ⟨f, rfl, h.valid, fun id => by simp, ?_, ?_, fun _ _ => rfl⟩
  · simpa [arrows, chain] using h.arrows
  · intro r hr
    obtain rfl := List.mem_singleton.mp hr
    exact .link edge

theorem straightens_step {data : EditorEdge → LinkData} {source target : String}
    {edge : EditorEdge} {node : EditorNode} {rest : Route} (enters : edge.target = node.id)
    (after : Straightens data node.id target [rest]) :
    Straightens data source target [.step edge node rest] := by
  intro f out h
  obtain ⟨distinct, valid, mem, arrows, apart, ready⟩ := h
  simp only [List.flatMap_singleton, ids_step, List.nodup_cons,
    List.mem_cons, not_or] at distinct mem arrows apart
  obtain ⟨⟨hst, hsn, hs⟩, ⟨htn, ht⟩, hn, hnodup⟩ := distinct
  rw [Route.arrows, List.cons_append] at arrows
  have hrest : Bundle data node.id target [rest] (⟨source, edge.target, data edge⟩ :: out) f := by
    refine ⟨?_, valid, ?_, ?_, ?_, ?_⟩
    · simp [Ne.symm htn, hn, ht, hnodup]
    · intro id hid
      simp only [List.mem_cons, List.flatMap_singleton] at hid
      exact mem id (by tauto)
    · simpa using arrows.trans List.perm_middle.symm
    · intro a ha
      simp only [List.flatMap_singleton]
      cases List.mem_cons.mp ha with
      | inl ha => exact ha ▸ ⟨hs, enters ▸ hn⟩
      | inr ha => exact ⟨(apart a ha).1.2, (apart a ha).2.2⟩
    · refine ready.mono ?_ ?_ fun _ _ => rfl
      · simp [Route.nodes]
      · simp [Route.edges]
  obtain ⟨g, hrun, done⟩ := after f _ hrest
  refine ⟨g, by simpa using hrun, done.valid, fun id => ?_, ?_, ?_, fun id hid => ?_⟩
  · rw [done.nodes]
    rw [List.forall_mem_singleton, List.forall_mem_singleton, ids_step, items, List.map_cons,
      List.mem_cons, List.mem_cons]
    refine and_congr_right fun _ => ⟨fun hin hid => hid.imp_right hin, fun hin hid => ?_⟩
    exact (hin (.inr hid)).resolve_left fun he => hn (he ▸ hid)
  · have harrows := done.arrows
    simp only [List.flatMap_singleton] at harrows ⊢
    exact harrows.trans List.perm_middle
  · intro r hr
    obtain rfl := List.mem_singleton.mp hr
    exact .step (done.filled rest List.mem_cons_self)
  · refine done.others id fun hin => hid ?_
    simp only [List.flatMap_singleton, ids_step] at hin ⊢
    exact List.mem_cons_of_mem _ hin

end Route

end WorkflowCompiler
