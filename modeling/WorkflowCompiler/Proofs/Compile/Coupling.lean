import WorkflowCompiler.Proofs.Compile.Phases

/-!
# Levels built in two sessions

What relates two sessions is kept while a level is built in both, as soon as it is kept by what a
single node does to a session: when it is built, checked, registered or replaced by a stand-in.
-/
namespace WorkflowCompiler

open Step

namespace Level

open Session

/-- Relations on nodes of the editor, on built nodes and on sessions that are kept when a node is
checked, registered or replaced. -/
structure Couples (P : EditorNode → EditorNode → Prop) (R : Node → Node → Prop)
    (Q : Session → Session → Prop) : Prop where
  standIn : ∀ {a b}, P a b → ∀ reason, R (Node.placeholder a reason) (Node.placeholder b reason)
  record : ∀ {a b s s'} {e : CompileError}, P a b → e.isRecoverable = true → Q s s' →
    Q (s.recordFailure a.id e) (s'.recordFailure b.id e)
  checks : ∀ {x y s s'}, R x y → Q s s' → s.checkResources x = s'.checkResources y
  register : ∀ {x y s s'}, x.WellMade → x.members = [] → R x y → Q s s' →
    Q (s.register x) (s'.register y)

namespace Couples

variable {P : EditorNode → EditorNode → Prop} {R : Node → Node → Prop}
  {Q : Session → Session → Prop} (couples : Couples P R Q) {s s' : Session} {a b : EditorNode}

include couples

theorem checkResource {x y : Node} (hab : P a b) (hxy : R x y) (h : Q s s') :
    Lockstep (checkResource a x) (checkResource b y) s s' R Q fun e _ _ =>
      e.isRecoverable = false := by
  unfold Lockstep
  rw [run_checkResource, run_checkResource, ← couples.checks hxy h]
  rcases hcheck : s.checkResources x with e | _
  · have hstand := Node.builtFrom_placeholder a e.message
    have recorded := couples.record hab (Session.checkResources_error hcheck) h
    exact .ok (couples.standIn hab _)
      (couples.register hstand.wellMade hstand.members (couples.standIn hab _) recorded)
  · exact .ok hxy h

theorem registerAll {xs ys : List Node} (fresh : ∀ x ∈ xs, x.WellMade ∧ x.members = [])
    (items : List.Forall₂ R xs ys) (h : Q s s') : Q (s.registerAll xs) (s'.registerAll ys) := by
  induction items generalizing s s' with
  | nil => exact h
  | cons first _ ih =>
    obtain ⟨made, rest⟩ := List.forall_mem_cons.mp fresh
    exact ih rest (couples.register made.1 made.2 first h)

variable {nested : NestedCompiler}
  (build : ∀ {a b : EditorNode} {s s' : Session}, P a b → Q s s' →
    Lockstep (Node.build nested a) (Node.build nested b) s s' R Q fun e t t' =>
      e.isRecoverable = true → Q t t')

include build

theorem buildNode (hab : P a b) (h : Q s s') :
    Lockstep (buildNode nested a) (buildNode nested b) s s' R Q fun e _ _ =>
      e.isRecoverable = false := by
  refine lockstep_orPlaceholder ?_ (couples.standIn hab) fun he h => couples.record hab he h
  refine (build hab h).bind fun x y t t' _ _ hxy ht => ?_
  have checks : Corresponds Eq (t.checkResources x) (t'.checkResources y) := by
    rw [couples.checks hxy ht]
    exact .refl (fun _ => rfl) _
  unfold checked
  exact (lockstep_ofSession checks ht fun _ _ => ht).bind fun _ _ u u' _ _ _ hu =>
    lockstep_pure hxy hu

theorem buildNodes {nodes nodes' : List EditorNode} (items : List.Forall₂ P nodes nodes')
    (h : Q s s') :
    Lockstep (nodes.mapM (Level.buildNode nested)) (nodes'.mapM (Level.buildNode nested)) s s'
      (List.Forall₂ R) Q fun e _ _ => e.isRecoverable = false :=
  lockstep_mapM_forall₂ items (fun _ _ _ _ hab ht => couples.buildNode build hab ht) h

variable (behaves : ∀ graph s, Behaves (nested graph) s)

include behaves

theorem buildResource (hab : P a b) (h : Q s s') :
    Lockstep (buildResource nested a) (buildResource nested b) s s' R Q fun e _ _ =>
      e.isRecoverable = false := by
  have built := lockstep_orPlaceholder (build hab h) (couples.standIn hab)
    fun he h => couples.record hab he h
  refine built.bind fun x y t t' run _ hxy ht => ?_
  obtain ⟨hfrom, -⟩ := (ensures_orPlaceholder_build behaves a s).of_ok run
  exact Matches.ok hxy (couples.register hfrom.wellMade hfrom.members hxy ht)

/-- A level is built alike in both sessions. -/
theorem buildAll {graph graph' : EditorGraph} (nodes : List.Forall₂ P graph.nodes graph'.nodes)
    (resources : List.Forall₂ P graph.resources graph'.resources) (h : Q s s') :
    Lockstep (buildAll nested graph) (buildAll nested graph') s s' Eq Q fun e _ _ =>
      e.isRecoverable = false := by
  unfold Level.buildAll
  -- the resources
  have built := lockstep_mapM_forall₂ resources
    (fun _ _ _ _ hab ht => couples.buildResource build behaves hab ht) h
  refine built.bind fun xs ys t t' hxs _ hsame ht => ?_
  have checked := lockstep_mapM_forall₂ (f := fun p => Level.checkResource p.1 p.2)
    (g := fun p => Level.checkResource p.1 p.2) (forall₂_zip_zip resources hsame)
    (fun _ _ _ _ h ht => couples.checkResource h.1 h.2 ht) ht
  refine checked.bind fun xs ys u u' hys _ hsame hu => ?_
  have hfrom := Resourced.builtFrom behaves ⟨_, t, hxs, hys⟩
  -- the nodes
  refine (couples.buildNodes build nodes hu).bind fun ns ms v v' hns _ hsame' hv => ?_
  have hfrom' := ((ensures_buildNodes behaves graph.nodes u).of_ok hns).1
  -- both once more
  unfold Lockstep
  rw [run_registers, run_registers]
  exact .ok rfl (couples.registerAll (fresh_of_builtFrom hfrom') hsame'
    (couples.registerAll (fresh_of_builtFrom hfrom) hsame hv))

end Couples

end Level

end WorkflowCompiler
