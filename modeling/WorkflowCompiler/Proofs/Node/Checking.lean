import WorkflowCompiler.Proofs.Flow.Checking
import WorkflowCompiler.Proofs.Node.Embedding

/-!
# What the run check sees

The run check walks the mappings that emission writes. An empty mapping in a branch of a fork, or in
the flow embedded in a sub-graph, keeps the mapping around it from passing the check.
-/
namespace WorkflowCompiler

namespace Registry

/-- The check of a mapping is the check of its arguments. -/
theorem nodeCanRun_frame (backflow : Bool) (node : Node) (args : JsonObject) :
    Json.nodeCanRun (.object (frame backflow node args)) =
      (Json.embeddedCanRun (reported args) &&
        (!Json.embedsFlow (reported args) || Json.bodyCanRun "resources" (reported args)) &&
        Json.bodyCanRun "true" (reported args) && Json.bodyCanRun "false" (reported args)) := by
  unfold frame reported
  simp [Json.nodeCanRun, Json.argsCanRun]

section Fork

variable {r : Registry} {emit : Node → Emitted}

theorem mem_emittedKeys_of_branch {b : Branching} {key id : String} (h : id ∈ b.branch key) :
    key ∈ b.emittedKeys := by
  unfold Branching.branch at h
  rcases hk : b.branches.get? key with _ | ids
  · simp [hk] at h
  · exact Branching.mem_emittedKeys.mpr
      ((Entries.contains_iff _ _).mp (Entries.contains_of_get? hk))

/-- A fork does not pass the check when a node in one of its branches does not. -/
theorem nodeCanRun_of_branch {backflow : Bool} {fork : Node} {args : JsonObject}
    (hargs : Registry.args r emit fork = .ok args) {b : Branching}
    (hb : fork.body.branching? = some b) {key id : String} (hid : id ∈ b.branch key)
    (truth : fork.body.kind? = some .ifs → key = "true" ∨ key = "false") {node : Node}
    (hn : r.get? id = some node) (visible : node.isStructural = false)
    (fails : ∀ fields, emit node = .ok fields → Json.nodeCanRun (.object fields) = false) :
    Json.nodeCanRun (.object (frame backflow fork args)) = false := by
  have blocked : ∀ {items}, emitBranch r emit fork.id (b.branch key) = .ok items →
      Json.nodesCanRun items = false := by
    intro items h
    obtain ⟨entries, lists, rfl⟩ := emitBranch_eq_ok.mp h
    obtain ⟨fields, emitted, mem⟩ := lists.mem hid hn visible
    exact Json.nodesCanRun_eq_false (List.mem_map_of_mem mem) (fails fields emitted)
  rw [nodeCanRun_frame]
  cases embeds_of_args hb hargs with
  | truth kind hyes hno _ first second =>
    obtain rfl | rfl := truth kind
    · simp [Json.bodyCanRun_eq, first, blocked hyes]
    · simp [Json.bodyCanRun_eq, second, blocked hno]
  | cases _ hcases nodes =>
    -- the check goes through all cases
    obtain ⟨entry, mem, entries, lists, rfl⟩ :=
      exists_of_mem_left (emitCases_eq_ok.mp hcases) (mem_emittedKeys_of_branch hid)
    have case := Json.casesCanRun_eq_false mem (blocked (emitBranch_eq_ok.mpr ⟨entries, lists, rfl⟩))
    simp [Json.embeddedCanRun_eq, nodes, case]

end Fork

/-- A node that embeds a flow does not pass the check when the flow does not. -/
theorem nodeCanRun_of_embedded {backflow : Bool} {node : Node} {flavor : SubgraphFlavor}
    {compiled : Flow} (fails : compiled.canRun = false) :
    Json.nodeCanRun (.object (frame backflow node (compiled.fields ++ flavor.args))) = false := by
  have parts : Json.nodesCanRun (compiled.nodes.map .object) = false ∨
      Json.nodesCanRun (compiled.resources.map .object) = false := by
    rw [Json.nodesCanRun_eq_all, Json.nodesCanRun_eq_all, List.all_map, List.all_map]
    unfold Flow.canRun at fails
    rw [List.all_append, Bool.and_eq_false_iff] at fails
    exact fails
  rw [nodeCanRun_frame]
  rcases parts with h | h <;>
    simp [Json.embeddedCanRun_eq, Json.embedsFlow, Json.bodyCanRun_eq, reported, Flow.fields,
      Entries.insert, Entries.get?, h]

end Registry

end WorkflowCompiler
