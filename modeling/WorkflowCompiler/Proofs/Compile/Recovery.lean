import WorkflowCompiler.Compile.Report
import WorkflowCompiler.Proofs.Compile.Building
import WorkflowCompiler.Proofs.Compile.Connecting
import WorkflowCompiler.Proofs.Compile.Ranking
import WorkflowCompiler.Proofs.Compile.Reading
import WorkflowCompiler.Proofs.Node.Collecting

/-!
# Recovery from failures

Whatever fails for a reason of its own is replaced by a stand-in where it is built. All that is
left to fail concerns the whole graph, as no resource is unknown once a level has been built.
-/
namespace WorkflowCompiler

open Step

namespace Flattening

theorem lookup_error {s : Session} {id requiredBy : String} {e : CompileError}
    (h : lookup s id requiredBy = .error e) : e.isRecoverable = false := by
  unfold lookup at h
  split at h
  · cases h
  · cases h
    rfl

variable {s : Session}
  (supplies : ∀ id node, s.registry.get? id = some node → s.registry.Supplies node)

include supplies

theorem emitNodes_error {w : Wiring} {ids : List String} {e : CompileError}
    (h : emitNodes s w ids = .error e) : e.isRecoverable = false := by
  induction ids with
  | nil => cases h
  | cons id ids ih =>
    rw [emitNodes_cons] at h
    rcases bind_eq_error.mp h with h | ⟨node, hnode, h⟩
    · exact lookup_error h
    rcases bind_eq_error.mp h with h | ⟨here, -, h⟩
    · unfold entries at h
      split at h
      · cases h
      · exact Registry.emitWithin_error supplies (supplies id node (lookup_eq_ok.mp hnode))
          (map_eq_error.mp h)
    rcases bind_eq_error.mp h with h | ⟨edges, -, h⟩
    · obtain ⟨link, -, h⟩ := error_of_mapM h
      rcases bind_eq_error.mp h with h | ⟨source, -, h⟩
      · exact lookup_error h
      · simp at h
    rcases bind_eq_error.mp h with h | ⟨rest, -, h⟩
    · exact ih h
    · simp at h

theorem emitDeclared_error {r : Resources} {id : String} {e : CompileError}
    (h : emitDeclared s r id = .error e) : e.isRecoverable = false := by
  unfold emitDeclared at h
  rcases bind_eq_error.mp h with h | ⟨resource, hres, h⟩
  · exact lookup_error h
  · have own := supplies id resource (lookup_eq_ok.mp hres)
    split at h
    · rcases bind_eq_error.mp h with h | ⟨fields, -, h⟩
      · exact Registry.emitWithin_error supplies own h
      · simp at h
    · simp at h

theorem emitUsed_error {r : Resources} {id : String} {e : CompileError}
    (h : emitUsed s r id = .error e) : e.isRecoverable = false := by
  unfold emitUsed at h
  rcases bind_eq_error.mp h with h | ⟨node, hnode, h⟩
  · exact lookup_error h
  · rcases bind_eq_error.mp h with h | ⟨entries, -, h⟩
    · exact Registry.resourcesOf_error supplies (supplies id node (lookup_eq_ok.mp hnode)) h
    · simp at h

/-- Reading off a level whose resources are all known fails only as a whole. -/
theorem flow_error {w : Wiring} {order declared : List String} {e : CompileError}
    (h : flow s w order declared = .error e) : e.isRecoverable = false := by
  unfold flow at h
  rcases bind_eq_error.mp h with h | ⟨⟨nodes, edges⟩, -, h⟩
  · exact emitNodes_error supplies h
  · rcases bind_eq_error.mp h with h | ⟨r, -, h⟩
    · obtain ⟨_, id, -, h⟩ := error_of_foldlM h
      exact emitDeclared_error supplies h
    · rcases bind_eq_error.mp h with h | ⟨r, -, h⟩
      · obtain ⟨_, id, -, h⟩ := error_of_foldlM h
        exact emitUsed_error supplies h
      · simp at h

end Flattening

namespace Level

open Session

theorem topologicalOrder_error {w : Wiring} {e : CompileError}
    (h : w.topologicalOrder = .error e) : e.isRecoverable = false := by
  unfold Wiring.topologicalOrder at h
  dsimp only at h
  split at h
  · cases h
  · cases h
    rfl

/-- The nodes of a level are there, and none of them has members yet. -/
structure Fresh (graph : EditorGraph) (s : Session) : Prop where
  present : ∀ id ∈ graph.nodes.map EditorNode.id, s.registry.contains id = true
  members : ∀ id ∈ graph.nodes.map EditorNode.id, ∀ node, s.registry.get? id = some node →
    node.members = []

theorem fresh_of_holds {graph : EditorGraph} {s t : Session} (holds : s.Holds graph.nodes)
    (re : s.Reconnects t) : Fresh graph t where
  present := by
    intro id hid
    obtain ⟨raw, hraw, rfl⟩ := List.mem_map.mp hid
    obtain ⟨made, -, -, node, hnode, -⟩ := holds raw hraw
    rw [re.same.contains]
    exact Entries.contains_of_get? hnode
  members := by
    intro id hid node hn
    obtain ⟨raw, hraw, rfl⟩ := List.mem_map.mp hid
    obtain ⟨made, -, -, built, hbuilt, from_⟩ := holds raw hraw
    obtain ⟨old, hold, -, houtline⟩ := re.outline_of_get? hn
    have hmembers : old.members = node.members := congrArg Prod.fst houtline
    obtain rfl : built = old := Option.some.inj (hbuilt.symm.trans hold)
    rw [← hmembers, from_.members]

/-- Folding the blocks of a level keeps the session in order and its nodes what they are. -/
theorem ensures_foldBlocks {graph : EditorGraph} {s : Session} (fresh : Fresh graph s)
    {w : Wiring} (v : w.Valid) (nodes : ∀ id ∈ w.nodes, id ∈ graph.nodes.map EditorNode.id)
    {order : List String} (isOrder : w.IsOrder order) {blocks : List Block}
    (matched : Block.matchAll s.registry order = .ok blocks) :
    Ensures (foldBlocks blocks w) s (fun _ t => s.Settles t ∧ s.registry.Same t.registry)
      s.Aborts := by
  have run := Block.ensures_foldAll v isOrder matched
    (fun id hid => fresh.present id (nodes id hid))
    (fun id hid => fresh.members id (nodes id hid))
  have settles : ∀ r, Block.KeepsRanks order s.registry r →
      s.Settles { s with registry := r } := by
    intro r h
    refine settles_of_same rfl rfl rfl rfl h.same ?_
    rintro ⟨rank, hrank⟩
    exact ⟨_, h.ranked rank hrank⟩
  unfold Ensures foldBlocks
  rcases hrun : Block.foldAll blocks ⟨s.registry, w⟩ with ⟨e | _, g⟩
  · obtain ⟨hkeeps, he⟩ := run.of_error hrun
    exact (settles _ hkeeps).aborts he
  · have hkeeps := run.of_ok hrun
    exact ⟨settles _ hkeeps, hkeeps.same⟩

/-- What is left to do with a built level before it is read off: its connections are scanned and its
blocks folded, which gives the folded wiring and the order of the nodes. -/
def arrange (graph : EditorGraph) : Build (Wiring × List String) := do
  let w ← connectAll graph
  let order ← w.topologicalOrder
  let blocks ← Build.ofSession fun s => Block.matchAll s.registry order
  let w ← foldBlocks blocks w
  return (w, order)

theorem compile_eq (nested : NestedCompiler) (graph : EditorGraph) :
    compile nested graph = (do
      buildAll nested graph
      let (w, order) ← arrange graph
      Build.ofSession fun s => Flattening.flow s w order (graph.resources.map EditorNode.id)) := by
  unfold compile arrange
  simp only [bind_assoc, pure_bind]

/-- Arranging a built level leaves the session in order, or the whole graph is at fault. -/
theorem ensures_arrange {graph : EditorGraph} {s : Session} (holds : s.Holds graph.nodes) :
    Ensures (arrange graph) s (fun _ t => s.Settles t ∧ s.registry.Same t.registry) s.Aborts := by
  unfold arrange
  refine ((ensures_connectAll graph s).mono (fun _ _ h => h) fun _ _ h =>
    h.1.settles.aborts h.2).bind fun w t ht => ?_
  obtain ⟨re, rfl, scanned⟩ := ht
  have fresh := fresh_of_holds holds re
  have v := valid_wiring s.registry graph
  refine ensures_lift_bind (fun order hsort => ?_) fun e h =>
    re.settles.aborts (topologicalOrder_error h)
  have isOrder := v.isOrder_of_topologicalOrder hsort
  refine ensures_ofSession_bind (fun blocks hmatch => ?_) fun e h =>
    re.settles.aborts (Block.matchFrom_error h)
  have hnodes : ∀ id ∈ (wiring s.registry graph).nodes, id ∈ graph.nodes.map EditorNode.id :=
    fun id hid => (Wiring.mem_nodes_wired (ends_of_edges scanned.ends)).mp hid
  refine ((ensures_foldBlocks fresh v hnodes isOrder hmatch).mono (fun _ _ h => h) fun _ _ h =>
    h.after re.settles.toGrows).bind fun w u hu => ?_
  exact ensures_pure ⟨re.settles.trans hu.1, re.same.trans hu.2⟩

variable {nested : NestedCompiler} (behaves : ∀ graph s, Behaves (nested graph) s)

include behaves

/-- A level is compiled, or the session stays in order; where all resources are known to begin
with, the failure concerns the whole graph. -/
theorem ensures_compile (graph : EditorGraph) (s : Session) :
    Ensures (compile nested graph) s (fun _ t => s.Settles t) fun e t =>
      s.Stops e t ∧ (s.Sound → s.registry.Closed [] → e.isRecoverable = false) := by
  have final : ∀ {t : Session} {e : CompileError}, s.Aborts e t →
      s.Stops e t ∧ (s.Sound → s.registry.Closed [] → e.isRecoverable = false) :=
    fun h => ⟨h.stops, fun _ _ => h.final⟩
  rw [compile_eq]
  refine ((ensures_buildAll behaves graph s).mono (fun _ _ h => h) fun _ _ h =>
    final h).bind fun _ t ht => ?_
  obtain ⟨hbuilt, holds, -⟩ := ht
  refine ((ensures_arrange holds).mono (fun _ _ h => h) fun _ _ h =>
    final (h.after hbuilt.toGrows)).bind fun arranged u hu => ?_
  have hfolded := hbuilt.trans hu.1
  refine ensures_ofSession (fun flow _ => hfolded) fun e h => ⟨hfolded.stops e, fun hs hc => ?_⟩
  have sound := (hfolded.sound hs).registry
  have closed := hfolded.closed [] hc
  exact Flattening.flow_error (fun id node hn => Registry.supplies_of_closed sound closed hn) h

omit behaves in
/-- However deep graphs nest, compiling them leaves the session in order. -/
theorem behaves_nestedCompiler (room : Nat) (graph : EditorGraph) (s : Session) :
    Behaves (nestedCompiler room graph) s := by
  induction room generalizing graph s with
  | zero => exact ensures_throw ((Settles.refl s).stops _)
  | succ room ih => exact (ensures_compile ih graph s).mono (fun _ _ h => h) fun _ _ h => h.1

end Level

namespace Session

theorem sound_fresh (collaborators : Collaborators) (options : Options) :
    Sound { collaborators, options } := ⟨Registry.sound_nil, by simp⟩

end Session

/-- A compile fails only for reasons that concern the whole graph, and all that it records are
failures of single nodes. -/
theorem EditorGraph.compile_recovers (graph : EditorGraph) (collaborators : Collaborators)
    (options : Options) :
    match graph.compile collaborators options with
    | .ok report => ∀ f ∈ report.failures, f.error.isRecoverable = true
    | .error e => e.isRecoverable = false := by
  let s : Session := { collaborators, options }
  have sound : s.Sound := Session.sound_fresh collaborators options
  have run := Level.ensures_compile (Level.behaves_nestedCompiler s.room) graph s
  unfold EditorGraph.compile
  rcases hrun : Session.compile graph s with ⟨e | flow, t⟩
  · exact (run.of_error hrun).2 sound (Registry.closed_nil [])
  · exact ((run.of_ok hrun).sound sound).failures

end WorkflowCompiler
