import WorkflowCompiler.Proofs.Compile.Moments
import WorkflowCompiler.Proofs.Compile.Showing

/-!
# Entering and leaving graphs

A graph that is entered is left again, however its compile ends, so a step of building ends with the
nesting that it began with. On its way the nesting only grows at its inner end, by apps that are not
in it, up to the depth allowed.
-/
namespace WorkflowCompiler

namespace Level

/-- `PassesNode room raw s t`: the building of `raw` that starts in `s`, with room for that many nested
graphs, passes through `t`. -/
inductive PassesNode : Nat → EditorNode → Session → Session → Prop
  /-- Nothing has been done yet. -/
  | start {room : Nat} {raw : EditorNode} {s : Session} : PassesNode room raw s s
  /-- The graph of the node is being compiled. -/
  | inside {room : Nat} {raw : EditorNode} {graph : EditorGraph} {s t u : Session}
      (enters : s.Enters raw graph t) (passes : Passes room graph t u) :
      PassesNode (room + 1) raw s u
  /-- The node has been built, perhaps in vain. -/
  | stop {room : Nat} {raw : EditorNode} {s : Session} :
      PassesNode room raw s (Node.build (nestedCompiler room) raw s).2

theorem PassesNode.reaches {room : Nat} {raw : EditorNode} {s t : Session}
    (h : PassesNode room raw s t) : s.Reaches t := by
  cases h with
  | start => exact (Session.Grows.refl s).reaches
  | inside enters passes => exact enters.reaches.trans passes.reaches
  | stop => exact (grows_build room raw s).reaches

/-- Compiling a level leaves all that was there, whatever comes of it. -/
theorem grows_compile (room : Nat) (graph : EditorGraph) (s : Session) :
    s.Grows (compile (nestedCompiler room) graph s).2 :=
  grows_of_ensures (ensures_compile (behaves_nestedCompiler room) graph s)
    (fun _ _ h => h.toGrows) fun _ _ h => h.1.grows

end Level

/-- Building a node and compiling a graph end with the collaborators, options and nesting that they
began with, with all registered ids still registered and all recorded failures still recorded,
whether they succeed or fail. At no moment on the way is an app inside itself or a graph nested
deeper than allowed, unless that was so to begin with. -/
theorem Session.building_balances (s : Session) (raw : EditorNode) (graph : EditorGraph) :
    s.Grows (Session.build raw s).2 ∧ s.Grows (Session.compile graph s).2 ∧
      ∀ t, Level.PassesNode s.room raw s t ∨ Level.Passes s.room graph s t →
        (s.nesting.Nodup → t.nesting.Nodup) ∧
          (s.depth ≤ s.options.maxDepth → t.depth ≤ s.options.maxDepth) := by
  refine ⟨Level.grows_build s.room raw s, Level.grows_compile s.room graph s, fun t h => ?_⟩
  have reaches : s.Reaches t := h.elim Level.PassesNode.reaches Level.Passes.reaches
  exact ⟨reaches.distinct, fun bound => reaches.options ▸ reaches.bounded bound⟩

namespace Level

/-- A graph whose only node goes by the same app as the node around it. -/
def recurring : EditorNode := holding "n" missingInside

theorem enters_recurring {s t : Session} (h : s.enter "n" = .ok t) :
    s.Enters recurring missingInside t :=
  ⟨by decide +kernel, .plain, Node.entrance_eq_ok.mpr
    ⟨rfl, nestedGraph_holding "n" (by decide +kernel) _, h⟩⟩

end Level

/-- A node inside the graph of its own app cannot be built while that graph is open, and both are left
again. -/
theorem Session.building_balances_recurring :
    (Session.build Level.recurring {}).1.toOption = none ∧
      (Session.build Level.recurring {}).2.nesting = [] ∧
      ∃ t, Level.PassesNode 16 Level.recurring {} t ∧ t.nesting = ["n"] ∧ t.nesting.Nodup ∧
        t.depth ≤ 16 := by
  have fails : (Session.build Level.recurring {}).1.toOption = none := by decide +kernel
  obtain ⟨grows, -, bounds⟩ := Session.building_balances {} Level.recurring Level.missingInside
  have entered : Level.PassesNode 16 Level.recurring {} (Session.within {} "n") :=
    .inside (Level.enters_recurring rfl) (.resources (List.nil_prefix ..))
  obtain ⟨distinct, bounded⟩ := bounds _ (.inl entered)
  exact ⟨fails, grows.nesting, _, entered, rfl, distinct List.nodup_nil, bounded (by decide)⟩

end WorkflowCompiler
