import WorkflowCompiler.Proofs.Node.Agreeing

/-!
# Nodes without their embedded graphs

A node keeps its data once it has been built, and with it the graph that was embedded there. Nothing
that is emitted for the node shows that graph: what shows is the flow that it was compiled to.
-/
namespace WorkflowCompiler

namespace Node

/-- The node without the graph embedded in its data. -/
def stripped (node : Node) : Node :=
  { node with data := node.data.erase "config__patent_graph" }

theorem sameButGraph_stripped (node : Node) : SameButGraph node.stripped.data node.data :=
  fun _ h => Entries.get?_erase_of_ne node.data h

end Node

namespace Registry

/-- The registry with all its nodes stripped. -/
def stripped (r : Registry) : Registry := Entries.mapValues Node.stripped r

@[simp] theorem get?_stripped (r : Registry) (id : String) :
    r.stripped.get? id = (r.get? id).map Node.stripped := Entries.get?_mapValues ..

@[simp] theorem contains_stripped (r : Registry) (id : String) :
    r.stripped.contains id = r.contains id := Entries.contains_mapValues ..

@[simp] theorem length_stripped (r : Registry) : r.stripped.length = r.length :=
  Entries.length_mapValues ..

theorem frame_stripped (backflow : Bool) (node : Node) (args : JsonObject) :
    frame backflow node.stripped args = frame backflow node args := by
  unfold frame
  rw [Node.payloadBool_of_sameButGraph node.sameButGraph_stripped,
    Node.title_of_sameButGraph node.sameButGraph_stripped]
  rfl

section Emission

variable (r : Registry) {emit emit' : Node → Emitted}
  (blind : ∀ node, emit' node.stripped = emit node)

include blind

theorem emitBranch_stripped (fork : String) (ids : List String) :
    emitBranch r.stripped emit' fork ids = emitBranch r emit fork ids := by
  induction ids with
  | nil => rfl
  | cons id ids ih =>
    rw [emitBranch, emitBranch, ih, get?_stripped]
    cases r.get? id with
    | none => rfl
    | some node =>
      simp only [Option.map_some, blind]
      rfl

theorem emitCases_stripped (fork : String) (b : Branching) :
    emitCases r.stripped emit' fork b = emitCases r emit fork b := by
  unfold emitCases
  simp only [emitBranch_stripped r blind]

omit blind in
theorem retrieverArgs_stripped (id : String) (body : RetrieverBody) :
    retrieverArgs r.stripped id body = retrieverArgs r id body := by
  unfold retrieverArgs
  rw [get?_stripped]
  cases r.get? body.doc <;> rfl

theorem args_stripped (node : Node) : args r.stripped emit' node.stripped = args r emit node := by
  unfold args
  rw [show node.stripped.body = node.body from rfl, show node.stripped.id = node.id from rfl]
  cases node.body <;>
    simp only [emitBranch_stripped r blind, emitCases_stripped r blind, retrieverArgs_stripped]

end Emission

theorem emitWithin_stripped (r : Registry) (backflow : Bool) (depth : Nat) (node : Node) :
    emitWithin r.stripped backflow depth node.stripped = emitWithin r backflow depth node := by
  induction depth generalizing node with
  | zero =>
    unfold emitWithin
    dsimp only
    rw [args_stripped r fun _ => rfl]
    simp only [frame_stripped]
    rfl
  | succ depth ih =>
    unfold emitWithin
    dsimp only
    rw [args_stripped r ih]
    simp only [frame_stripped]
    rfl

theorem emit_stripped (r : Registry) (backflow : Bool) (node : Node) :
    emit r.stripped backflow node.stripped = emit r backflow node := by
  unfold emit
  rw [length_stripped, emitWithin_stripped]

theorem rootsWithin_stripped (r : Registry) (depth : Nat) (node : Node) :
    rootsWithin r.stripped depth node.stripped = rootsWithin r depth node := by
  induction depth generalizing node with
  | zero =>
    unfold rootsWithin
    congr 1
    refine mapM_congr fun id _ => ?_
    rw [get?_stripped]
    cases r.get? id <;> rfl
  | succ depth ih =>
    unfold rootsWithin
    congr 1
    refine mapM_congr fun id _ => ?_
    rw [get?_stripped]
    cases r.get? id with
    | none => rfl
    | some child => exact ih child

theorem roots_stripped (r : Registry) (node : Node) :
    roots r.stripped node.stripped = roots r node := by
  unfold roots
  rw [length_stripped, rootsWithin_stripped]

theorem collect_stripped (r : Registry) (backflow : Bool) (n : Nat) (id requestedBy : String)
    (c : Collected) :
    collect r.stripped backflow n id requestedBy c = collect r backflow n id requestedBy c := by
  induction n generalizing id requestedBy c with
  | zero =>
    unfold collect
    rw [get?_stripped]
    cases r.get? id with
    | none => rfl
    | some resource => simp only [Option.map_some, roots_stripped, emit_stripped]
  | succ n ih =>
    unfold collect
    rw [get?_stripped]
    cases r.get? id with
    | none => rfl
    | some resource => simp only [Option.map_some, roots_stripped, emit_stripped, ih]

theorem resourcesOf_stripped (r : Registry) (backflow : Bool) (node : Node) :
    resourcesOf r.stripped backflow node.stripped = resourcesOf r backflow node := by
  unfold resourcesOf
  rw [roots_stripped, length_stripped]
  simp only [collect_stripped]
  rfl

end Registry

end WorkflowCompiler
