import WorkflowCompiler.Proofs.Compile.Routes
import WorkflowCompiler.Proofs.Wiring.Lanes

/-!
# Connections of routes

The connections that a route stands for in a wiring, and the chain of its items, which is left of
them when each block has been folded into its fork.
-/
namespace WorkflowCompiler

open Wiring

namespace Route

section Arrows

variable (data : EditorEdge → LinkData)

mutual

/-- The connections of a route that starts at a node. -/
def arrows : Route → String → List Arrow
  | .link edge, source => [⟨source, edge.target, data edge⟩]
  | .step edge node rest, source => ⟨source, edge.target, data edge⟩ :: rest.arrows node.id
  | .block edge fork bodies stop rest, source =>
      ⟨source, edge.target, data edge⟩ :: (arrowsAll bodies fork.id ++ rest.arrows stop.id)

/-- The connections of routes that start at a node. -/
def arrowsAll : List Route → String → List Arrow
  | [], _ => []
  | body :: bodies, source => body.arrows source ++ arrowsAll bodies source

end

/-- The connections between the items of a route, each block having been folded into its fork. -/
def chain : Route → String → List Arrow
  | .link edge, source => [⟨source, edge.target, data edge⟩]
  | .step edge node rest, source => ⟨source, edge.target, data edge⟩ :: rest.chain node.id
  | .block edge fork _ _ rest, source => ⟨source, edge.target, data edge⟩ :: rest.chain fork.id

theorem arrowsAll_eq (bodies : List Route) (source : String) :
    arrowsAll data bodies source = bodies.flatMap fun body => body.arrows data source := by
  induction bodies with
  | nil => simp [arrowsAll]
  | cons body bodies ih => simp [arrowsAll, ih]

theorem arrows_block (edge : EditorEdge) (fork : EditorNode) (bodies : List Route)
    (stop : EditorNode) (rest : Route) (source : String) :
    (block edge fork bodies stop rest).arrows data source =
      ⟨source, edge.target, data edge⟩ ::
        ((bodies.flatMap fun body => body.arrows data fork.id) ++ rest.arrows data stop.id) := by
  rw [arrows, arrowsAll_eq]

/-- Where a route starts makes a difference to its first connection only. -/
theorem arrows_eq_cons (r : Route) (source other : String) :
    r.arrows data source = ⟨source, r.first.target, data r.first⟩ :: (r.arrows data other).tail := by
  cases r with
  | link => rfl
  | step => rfl
  | block => rw [arrows_block, arrows_block]; rfl

theorem chain_eq_cons (r : Route) (source other : String) :
    r.chain data source = ⟨source, r.first.target, data r.first⟩ :: (r.chain data other).tail := by
  cases r <;> rfl

theorem Leads.arrows_eq {source target : String} {r : Route} (h : r.Leads source target) :
    r.edges.map (fun e => ⟨e.source, e.target, data e⟩) = r.arrows data source := by
  induction h with
  | link leaves => simp [edges, arrows, leaves]
  | step leaves _ _ _ _ ih => simp [edges, arrows, leaves, ih]
  | @block _ _ edge fork stop bodies rest leaves _ _ _ _ _ _ _ _ _ _ ihBodies ih =>
    rw [edges_block, arrows_block, List.map_cons, List.map_append, ih, leaves, List.map_flatMap]
    congr 2
    exact List.flatMap_congr ihBodies

variable {data}

theorem Leads.source_of_tail {source target other : String} {r : Route}
    (h : r.Leads source target) : ∀ a ∈ (r.arrows data other).tail, a.source ∈ r.ids := by
  obtain ⟨more, hedges, hmore⟩ := h.edges_eq
  have hall := h.arrows_eq data
  rw [hedges, List.map_cons, arrows_eq_cons data r source other] at hall
  rw [← (List.cons.inj hall).2]
  intro a ha
  obtain ⟨e, he, rfl⟩ := List.mem_map.mp ha
  exact hmore e he

theorem Leads.arrows_ends {source target other : String} {r : Route} (h : r.Leads source target) :
    ∀ a ∈ r.arrows data other, (a.source = other ∨ a.source ∈ r.ids) ∧
      (a.target = target ∨ a.target ∈ r.ids) := by
  intro a ha
  rw [arrows_eq_cons data r other source] at ha
  have hall := h.arrows_eq data
  have hends : ∀ b ∈ r.arrows data source, b.target = target ∨ b.target ∈ r.ids := by
    rw [← hall]
    intro b hb
    obtain ⟨e, he, rfl⟩ := List.mem_map.mp hb
    exact (h.ends e he).2
  cases List.mem_cons.mp ha with
  | inl ha =>
    have hfirst := hends ⟨source, r.first.target, data r.first⟩ (by
      rw [arrows_eq_cons data r source source]
      exact List.mem_cons_self)
    rw [ha]
    exact ⟨.inl rfl, hfirst⟩
  | inr ha => exact ⟨.inr (h.source_of_tail a ha), hends a (List.mem_of_mem_tail ha)⟩

theorem items_sublist : ∀ r : Route, r.items.Sublist r.nodes
  | .link _ => .refl _
  | .step _ node rest => (items_sublist rest).cons_cons node
  | .block _ fork bodies stop rest => by
    rw [items, nodes]
    have hrest := (items_sublist rest).cons stop
    exact (hrest.trans (List.sublist_append_right _ _)).cons_cons fork

theorem mem_ids_of_items {r : Route} {id : String} (h : id ∈ r.items.map EditorNode.id) :
    id ∈ r.ids := ((items_sublist r).map EditorNode.id).subset h

variable (data)

theorem Leads.chained {source target : String} {r : Route} (h : r.Leads source target)
    (other : String) : Chained other target (r.chain data other) := by
  induction h generalizing other with
  | link _ enters => exact ⟨rfl, enters⟩
  | step _ enters _ _ _ ih => exact ⟨rfl, enters ▸ ih _⟩
  | block _ enters _ _ _ _ _ _ _ _ _ _ ih => exact ⟨rfl, enters ▸ ih _⟩

/-- The chain of a route passes through its items. -/
theorem passed_chain (r : Route) (source : String) :
    passed (r.chain data source) = r.items.map EditorNode.id := by
  unfold passed
  match r with
  | .link _ => rfl
  | .step _ node rest =>
    have hrest := passed_chain rest node.id
    unfold passed at hrest
    rw [chain, List.tail_cons, chain_eq_cons data rest node.id node.id, List.map_cons, hrest]
    rfl
  | .block _ fork _ _ rest =>
    have hrest := passed_chain rest fork.id
    unfold passed at hrest
    rw [chain, List.tail_cons, chain_eq_cons data rest fork.id fork.id, List.map_cons, hrest]
    rfl

theorem passedAll_chains (bodies : List Route) (source : String) :
    passedAll (bodies.map fun body => body.chain data source) =
      bodies.flatMap fun body => body.items.map EditorNode.id := by
  unfold passedAll
  rw [List.flatMap_map]
  exact List.flatMap_congr fun body _ => passed_chain data body source

theorem sources_chain (r : Route) (source : String) :
    (r.chain data source).map Arrow.source = source :: r.items.map EditorNode.id := by
  rw [← passed_chain data r source, chain_eq_cons data r source source, List.map_cons]
  rfl

/-- The targets along the chain of a route are its items and what it leads to. -/
theorem Leads.targets_chain {source target : String} {r : Route} (h : r.Leads source target)
    (other : String) :
    (r.chain data other).map Arrow.target = r.items.map EditorNode.id ++ [target] := by
  have htargets := (h.chained data other).targets
  rw [sources_chain, List.cons_append] at htargets
  exact (List.cons.inj htargets).2

variable {data}

theorem Leads.chain_ends {source target other : String} {r : Route} (h : r.Leads source target) :
    ∀ a ∈ r.chain data other, (a.source = other ∨ a.source ∈ r.ids) ∧
      (a.target = target ∨ a.target ∈ r.ids) := by
  intro a ha
  have hsource : a.source ∈ other :: r.items.map EditorNode.id :=
    sources_chain data r other ▸ List.mem_map_of_mem ha
  have htarget : a.target ∈ r.items.map EditorNode.id ++ [target] :=
    h.targets_chain data other ▸ List.mem_map_of_mem ha
  constructor
  · exact (List.mem_cons.mp hsource).imp_right mem_ids_of_items
  · cases List.mem_append.mp htarget with
    | inl hin => exact .inr (mem_ids_of_items hin)
    | inr hin => exact .inl (List.mem_singleton.mp hin)

end Arrows

end Route

end WorkflowCompiler
