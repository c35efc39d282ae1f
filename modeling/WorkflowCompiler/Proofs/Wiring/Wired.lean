import WorkflowCompiler.Proofs.Wiring.Regions

/-!
# Wirings from scratch

Nodes and then the links between them are added one after the other. Nothing is removed, so links
stand in the order in which they were added.
-/
namespace WorkflowCompiler

namespace Wiring

/-- The wiring of some nodes and some connections between them. -/
def wired (ids : List String) (arrows : List Arrow) : Wiring :=
  arrows.foldl (fun w a => w.addLink a.source a.target a.data) (ids.foldl addNode {})

theorem built_wired (ids : List String) (arrows : List Arrow) : (wired ids arrows).Built := by
  have hnodes : ∀ (ids : List String) (w : Wiring), w.Built → (ids.foldl addNode w).Built := by
    intro ids
    induction ids with
    | nil => exact fun _ h => h
    | cons id ids ih => exact fun w h => ih _ (h.addNode id)
  have hlinks : ∀ (arrows : List Arrow) (w : Wiring), w.Built →
      (arrows.foldl (fun w a => w.addLink a.source a.target a.data) w).Built := by
    intro arrows
    induction arrows with
    | nil => exact fun _ h => h
    | cons a arrows ih => exact fun w h => ih _ (h.addLink a.source a.target a.data)
  exact hlinks arrows _ (hnodes ids _ .empty)

theorem addNode_of_mem {w : Wiring} {id : String} (h : id ∈ w.nodes) : w.addNode id = w := by
  unfold addNode
  rw [if_pos]
  simpa [contains] using h

theorem foldl_addNode (ids : List String) (w : Wiring) :
    ids.foldl addNode w = { w with nodes := appendNew w.nodes ids } := by
  induction ids generalizing w with
  | nil => rfl
  | cons id ids ih =>
    rw [List.foldl_cons, ih]
    by_cases h : id ∈ w.nodes
    · rw [addNode_of_mem h]
      simp [appendNew, h]
    · have hadd : w.addNode id = { w with nodes := w.nodes ++ [id] } := by
        unfold addNode
        rw [if_neg]
        simpa [contains] using h
      rw [hadd]
      simp [appendNew, h]

/-- All parts of a wiring whose connections join its nodes. -/
theorem wired_eq {ids : List String} {arrows : List Arrow}
    (ends : ∀ a ∈ arrows, a.source ∈ ids ∧ a.target ∈ ids) :
    wired ids arrows =
      { nodes := appendNew [] ids
        slots := arrows.zipIdx.map fun (a, i) => some ⟨a.source, a.target, a.data, i⟩
        free := []
        clock := arrows.length } := by
  have main : ∀ (arrows : List Arrow) (w : Wiring), w.free = [] →
      (∀ a ∈ arrows, a.source ∈ w.nodes ∧ a.target ∈ w.nodes) →
      arrows.foldl (fun w a => w.addLink a.source a.target a.data) w =
        { w with
          slots := w.slots ++ (arrows.zipIdx w.clock).map fun (a, i) =>
            some ⟨a.source, a.target, a.data, i⟩
          clock := w.clock + arrows.length } := by
    intro arrows
    induction arrows with
    | nil => intro w _ _; simp
    | cons a arrows ih =>
      intro w hfree hends
      obtain ⟨hs, ht⟩ := hends a List.mem_cons_self
      let next : Wiring :=
        { w with
          slots := w.slots ++ [some ⟨a.source, a.target, a.data, w.clock⟩]
          clock := w.clock + 1 }
      have hadd : w.addLink a.source a.target a.data = next := by
        unfold addLink
        rw [addNode_of_mem hs, addNode_of_mem ht]
        simp only [place, hfree, next]
      have hrest := ih next hfree fun b hb => hends b (List.mem_cons_of_mem _ hb)
      rw [List.foldl_cons, hadd, hrest]
      simp [next, Nat.add_comm, Nat.add_left_comm]
  have hmem : ∀ a ∈ arrows, a.source ∈ appendNew [] ids ∧ a.target ∈ appendNew [] ids := by
    intro a ha
    simpa [mem_appendNew] using ends a ha
  unfold wired
  rw [foldl_addNode, main arrows _ rfl hmem]
  simp

theorem nodes_wired {ids : List String} {arrows : List Arrow}
    (ends : ∀ a ∈ arrows, a.source ∈ ids ∧ a.target ∈ ids) :
    (wired ids arrows).nodes = appendNew [] ids := by
  rw [wired_eq ends]

theorem mem_nodes_wired {ids : List String} {arrows : List Arrow}
    (ends : ∀ a ∈ arrows, a.source ∈ ids ∧ a.target ∈ ids) {id : String} :
    id ∈ (wired ids arrows).nodes ↔ id ∈ ids := by
  rw [nodes_wired ends, mem_appendNew]
  simp

theorem placed_wired {ids : List String} {arrows : List Arrow}
    (ends : ∀ a ∈ arrows, a.source ∈ ids ∧ a.target ∈ ids) :
    (wired ids arrows).placed =
      arrows.zipIdx.map fun (a, i) => ⟨i, ⟨a.source, a.target, a.data, i⟩⟩ := by
  have main : ∀ (arrows : List Arrow) (k : Nat),
      placedFrom k ((arrows.zipIdx k).map fun (a, i) => some ⟨a.source, a.target, a.data, i⟩) =
        (arrows.zipIdx k).map fun (a, i) => ⟨i, ⟨a.source, a.target, a.data, i⟩⟩ := by
    intro arrows
    induction arrows with
    | nil => intro k; rfl
    | cons a arrows ih =>
      intro k
      simp only [List.zipIdx_cons, List.map_cons, placedFrom_some, ih]
  rw [wired_eq ends]
  exact main arrows 0

theorem arrows_wired {ids : List String} {arrows : List Arrow}
    (ends : ∀ a ∈ arrows, a.source ∈ ids ∧ a.target ∈ ids) :
    (wired ids arrows).arrows = arrows := by
  unfold Wiring.arrows
  rw [placed_wired ends, List.map_map]
  exact List.zipIdx_map_fst 0 arrows

end Wiring

end WorkflowCompiler
