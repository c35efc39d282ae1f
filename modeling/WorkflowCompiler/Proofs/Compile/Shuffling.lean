import WorkflowCompiler.Proofs.Compile.Coupling
import WorkflowCompiler.Proofs.Compile.Scoping

/-!
# Sessions with the same content

In what order nodes have been registered and failures recorded makes no difference to a compile. Two
sessions that hold the same under every id stay so, step by step, and what they record is the same
again.
-/
namespace WorkflowCompiler

open Step

/-- Sound sessions of the same surroundings that hold the same under every id and have recorded the
same failures, in whichever order. -/
structure Session.Shuffled (c : Collaborators) (o : Options) (s s' : Session) : Prop extends
    s.Linked c o Set.univ Set.univ s' where
  failures : s'.failures.Perm s.failures

namespace Session.Shuffled

variable {c : Collaborators} {o : Options} {s s' t t' : Session}

theorem refl (sound : s.Sound) : s.Shuffled s.collaborators s.options s where
  collaborators := rfl
  collaborators' := rfl
  options := rfl
  options' := rfl
  nesting := rfl
  sound := sound
  sound' := sound
  same := fun _ _ => rfl
  members := fun _ _ _ _ _ _ => trivial
  resources := fun _ _ _ _ _ _ => trivial
  failures := .refl _

section

variable (h : s.Shuffled c o s')

include h

theorem node?_eq (id : String) : s'.node? id = s.node? id := h.same id trivial

theorem contains_eq (id : String) : s'.registry.contains id = s.registry.contains id :=
  h.contains trivial

/-- What grows out of such sessions in the same way is as they are. -/
theorem grow (grows : s.Grows t) (grows' : s'.Grows t') (same : ∀ id, t'.node? id = t.node? id)
    (failures : t'.failures.Perm t.failures) : t.Shuffled c o t' where
  collaborators := grows.collaborators.trans h.collaborators
  collaborators' := grows'.collaborators.trans h.collaborators'
  options := grows.options.trans h.options
  options' := grows'.options.trans h.options'
  nesting := grows'.nesting.trans (h.nesting.trans grows.nesting.symm)
  sound := grows.sound h.sound
  sound' := grows'.sound h.sound'
  same := fun id _ => same id
  members := fun _ _ _ _ _ _ => trivial
  resources := fun _ _ _ _ _ _ => trivial
  failures := failures

theorem register {node : Node} (made : node.WellMade) (members : node.members = []) :
    (s.register node).Shuffled c o (s'.register node) := by
  refine h.grow (s.grows_register made members) (s'.grows_register made members) (fun id => ?_)
    h.failures
  rw [node?_register, node?_register, h.node?_eq id]

theorem recordFailure (id : String) {e : CompileError} (he : e.isRecoverable = true) :
    (s.recordFailure id e).Shuffled c o (s'.recordFailure id e) :=
  { h.toLinked.recordFailure id he with failures := h.failures.append_right _ }

theorem within (app : String) : (s.within app).Shuffled c o (s'.within app) :=
  { h.toLinked.within app with failures := h.failures }

theorem leave : s.leave.Shuffled c o s'.leave := { h.toLinked.leave with failures := h.failures }

theorem checkResources (node : Node) : s'.checkResources node = s.checkResources node :=
  checkResources_congr fun x _ => h.contains_eq x

/-- A level is read off the same. -/
theorem flow_eq (w : Wiring) (order declared : List String) :
    Flattening.flow s w order declared = Flattening.flow s' w order declared := by
  obtain ⟨rank, ranked⟩ := h.sound.registry.ranked
  obtain ⟨rank', ranked'⟩ := h.sound'.registry.ranked
  refine Corresponds.eq ?_
  refine (Flattening.flow_corresponds h.agree h.agree h.resources ranked ranked'
    h.sound.registry.made (fun _ _ => trivial) (fun _ _ => trivial) fun _ _ => trivial).mono ?_
  exact fun _ _ same => same.eq_of_nil

end

end Session.Shuffled

namespace Level

open Session

variable {c : Collaborators} {o : Options} {s s' : Session}

/-- A step that ends alike in such sessions and leaves such sessions. Where it fails for the whole
graph, nothing more is asked. -/
abbrev Shuffles {α : Type} (c : Collaborators) (o : Options) (m : Build α) (s s' : Session) : Prop :=
  Lockstep m m s s' Eq (Shuffled c o) fun e t t' => e.isRecoverable = true → t.Shuffled c o t'

/-- No step of arranging a level records a failure. -/
theorem keeps_failures_arrange (graph : EditorGraph) (s : Session) :
    Keeps (arrange graph) s fun t => t.failures = s.failures := by
  unfold arrange
  have scanned := (ensures_connectAll graph s).mono (fun _ _ h => h.1.failures)
    fun _ _ h => h.1.failures
  refine scanned.bind fun w t ht => ?_
  refine ensures_lift_bind (fun order _ => ?_) fun _ _ => ht
  refine ensures_ofSession_bind (fun blocks _ => ?_) fun _ _ => ht
  have folded : Keeps (foldBlocks blocks w) t fun u => u.failures = s.failures := by
    rw [keeps_iff]
    exact ht
  exact folded.bind fun _ _ hu => ensures_pure hu

theorem shuffles_arrange {graph : EditorGraph} (holds : s.Holds graph.nodes)
    (holds' : s'.Holds graph.nodes) (h : s.Shuffled c o s') :
    Lockstep (arrange graph) (arrange graph) s s' Eq (Shuffled c o)
      fun e _ _ => e.isRecoverable = false := by
  refine lockstep_of_run (lockstep_arrange graph (fun _ _ => trivial) h.agree)
    (fun p q t t' run run' hpq ht => ⟨hpq.1, ?_⟩)
    fun e t t' run _ _ => ((ensures_arrange holds).of_error run).final
  have linked := h.toLinked.of_agree ht ((ensures_arrange holds).of_ok run).1
    ((ensures_arrange holds').of_ok run').1
  have kept := (keeps_failures_arrange graph s).of_ok run
  have kept' := (keeps_failures_arrange graph s').of_ok run'
  exact { linked with failures := by rw [kept, kept']; exact h.failures }

/-- Whatever a single node does to such sessions, they stay such sessions. -/
theorem couples_shuffled (c : Collaborators) (o : Options) : Couples Eq Eq (Shuffled c o) where
  standIn := fun h _ => h ▸ rfl
  record := fun h he shuffled => h ▸ shuffled.recordFailure _ he
  checks := fun same shuffled => same ▸ (shuffled.checkResources _).symm
  register := fun made members same shuffled => same ▸ shuffled.register made members

section Building

variable {nested : NestedCompiler}
  (shuffles : ∀ (graph : EditorGraph) {s s' : Session}, s.Shuffled c o s' →
    Shuffles c o (nested graph) s s')

include shuffles

theorem shuffles_build {a b : EditorNode} (same : a = b) (h : s.Shuffled c o s') :
    Lockstep (Node.build nested a) (Node.build nested b) s s' Eq (Shuffled c o) fun e t t' =>
      e.isRecoverable = true → t.Shuffled c o t' := by
  subst same
  by_cases hsub : a.HasGraph
  · rw [Node.build_subgraph _ hsub]
    refine Node.lockstep_buildNested ((Node.entrance_corresponds h.toLinked a).mono ?_)
      (fun _ => rfl) Shuffled.leave h
    rintro ⟨flavor, inner, t⟩ ⟨flavor', inner', t'⟩ ⟨hflavor, rfl, -, rfl, rfl⟩
    exact ⟨hflavor, shuffles inner (h.within _)⟩
  · unfold Lockstep
    rw [Node.run_build_plain _ hsub, Node.run_build_plain _ hsub, h.collaborators, h.collaborators']
    rcases a.builtPlain c with e | node
    · exact .error e fun _ => h
    · exact .ok rfl h

theorem shuffles_compile (behaves : ∀ graph s, Behaves (nested graph) s) (graph : EditorGraph)
    (h : s.Shuffled c o s') :
    Shuffles c o (compile nested graph) s s' := by
  have final : ∀ {e : CompileError} {t t' : Session}, e.isRecoverable = false →
      e.isRecoverable = true → t.Shuffled c o t' := fun h he => by simp [h] at he
  unfold Shuffles
  rw [compile_eq]
  have built := (couples_shuffled c o).buildAll (shuffles_build shuffles) behaves
    (List.forall₂_refl graph.nodes) (List.forall₂_refl graph.resources) h
  refine (lockstep_of_run built (fun _ _ _ _ _ _ h ht => ⟨h, ht⟩) fun _ _ _ _ _ he => final he).bind
    fun _ _ t t' run run' _ ht => ?_
  have holds := ((ensures_buildAll behaves graph s).of_ok run).2.1
  have holds' := ((ensures_buildAll behaves graph s').of_ok run').2.1
  have arranged := shuffles_arrange holds holds' ht
  refine (lockstep_of_run arranged (fun _ _ _ _ _ _ h hu => ⟨h, hu⟩) fun _ _ _ _ _ he =>
    final he).bind fun p q u u' _ _ hpq hu => ?_
  subst hpq
  refine lockstep_ofSession ?_ hu fun _ _ => hu
  rw [hu.flow_eq]
  exact .refl (fun _ => rfl) _

end Building

/-- However deep graphs nest, they are compiled the same in such sessions. -/
theorem shuffles_nestedCompiler (c : Collaborators) (o : Options) (room : Nat) (graph : EditorGraph)
    {s s' : Session} (h : s.Shuffled c o s') : Shuffles c o (nestedCompiler room graph) s s' := by
  induction room generalizing graph s s' with
  | zero => exact .error _ fun _ => h
  | succ room ih => exact shuffles_compile ih (behaves_nestedCompiler room) graph h

end Level

end WorkflowCompiler
