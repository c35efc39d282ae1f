import WorkflowCompiler.Proofs.Compile.Phases
import WorkflowCompiler.Proofs.Compile.Recovery

/-!
# The resources that nodes name

Which resources a built node names is read off the node of the editor and the answers of the
collaborators. Stand-ins and nodes with a graph of their own name none.
-/
namespace WorkflowCompiler

open Step

/-- Whether a node of the editor has a graph of its own. -/
abbrev EditorNode.HasGraph (raw : EditorNode) : Prop :=
  NodeKind.ofName? (Text.lower raw.kind) = some .subgraph

/-- The resources that a node names once it is built. -/
def EditorNode.named (raw : EditorNode) (c : Collaborators) : List String :=
  match raw.builtPlain c with
  | .ok node => node.resourceIds
  | .error _ => []

theorem EditorNode.named_of_builtPlain {raw : EditorNode} {c : Collaborators} {node : Node}
    (h : raw.builtPlain c = .ok node) : raw.named c = node.resourceIds := by
  unfold named
  rw [h]

theorem EditorNode.named_of_hasGraph {raw : EditorNode} (kind : raw.HasGraph) (c : Collaborators) :
    raw.named c = [] := by
  unfold named builtPlain
  rw [kind]
  rfl

/-- Whether a built node names only what the node of the editor names. -/
def Node.NamesAs (raw : EditorNode) (c : Collaborators) (node : Node) : Prop :=
  ∀ x ∈ node.resourceIds, x ∈ raw.named c

namespace Node

theorem namesAs_of_nil {raw : EditorNode} {c : Collaborators} {node : Node}
    (h : node.resourceIds = []) : node.NamesAs raw c := by
  intro x hx
  simp [h] at hx

theorem namesAs_build (nested : NestedCompiler) (raw : EditorNode) (s : Session) :
    Ensures (build nested raw) s (fun node _ => node.NamesAs raw s.collaborators)
      fun _ _ => True := by
  by_cases hsub : raw.HasGraph
  · rw [build_subgraph nested hsub]
    unfold Ensures
    rw [run_buildNested]
    rcases (ofEditor raw).entrance s with e | ⟨flavor, graph, u⟩
    · trivial
    · dsimp only
      rcases nested graph u with ⟨e | flow, v⟩
      · trivial
      · exact namesAs_of_nil (resourceIds_holder raw _)
  · unfold Ensures
    rw [run_build_plain nested hsub]
    rcases hb : raw.builtPlain s.collaborators with e | node
    · trivial
    · exact fun x hx => EditorNode.named_of_builtPlain hb ▸ hx

theorem namesAs_placeholder (raw : EditorNode) (c : Collaborators) (reason : String) :
    (placeholder raw reason).NamesAs raw c := namesAs_of_nil rfl

end Node

namespace Level

theorem namesAs_orPlaceholder {raw : EditorNode} {step : Build Node} {s : Session}
    {c : Collaborators} (h : Ensures step s (fun node _ => node.NamesAs raw c) fun _ _ => True) :
    Ensures (orPlaceholder raw step) s (fun node _ => node.NamesAs raw c) fun _ _ => True :=
  ensures_orPlaceholder h (fun e _ _ _ => Node.namesAs_placeholder raw c e.message) fun _ _ h _ => h

theorem namesAs_buildNode (nested : NestedCompiler) (raw : EditorNode) (s : Session) :
    Ensures (buildNode nested raw) s (fun node _ => node.NamesAs raw s.collaborators)
      fun _ _ => True := by
  refine namesAs_orPlaceholder ((Node.namesAs_build nested raw s).bind fun node t h => ?_)
  unfold checked
  exact ensures_ofSession_bind (fun _ _ => ensures_pure h) fun _ _ => trivial

theorem namesAs_buildResource (nested : NestedCompiler) (raw : EditorNode) (s : Session) :
    Ensures (buildResource nested raw) s (fun node _ => node.NamesAs raw s.collaborators)
      fun _ _ => True :=
  (namesAs_orPlaceholder (Node.namesAs_build nested raw s)).bind fun _ _ h => ensures_registered h

theorem namesAs_checkResource {raw : EditorNode} {resource : Node} {c : Collaborators}
    (h : resource.NamesAs raw c) (s : Session) :
    Ensures (checkResource raw resource) s (fun node _ => node.NamesAs raw c) fun _ _ => True :=
  ensures_checked_or_replaced (fun _ => h) fun e _ => Node.namesAs_placeholder raw c e.message

/-- A node without a graph of its own is built alike where the resources that it names are known
alike. -/
theorem lockstep_buildNode_plain (nested : NestedCompiler) {raw : EditorNode}
    (plain : ¬ raw.HasGraph) {s s' : Session}
    (collaborators : s'.collaborators = s.collaborators)
    (known : ∀ x ∈ raw.named s.collaborators, s'.registry.contains x = s.registry.contains x)
    {Q : Session → Session → Prop}
    (q : ∀ failures failures', Q { s with failures } { s' with failures := failures' }) :
    Lockstep (buildNode nested raw) (buildNode nested raw) s s' Eq Q fun _ => Q := by
  have hsame : raw.checkedPlain s' = raw.checkedPlain s := by
    unfold EditorNode.checkedPlain
    rw [collaborators]
    rcases hb : raw.builtPlain s.collaborators with e | node
    · rfl
    · simp only [bind, Except.bind]
      rw [Session.checkResources_congr fun x hx =>
        known x (EditorNode.named_of_builtPlain hb ▸ hx)]
  unfold Lockstep
  rw [run_buildNode_plain nested plain, run_buildNode_plain nested plain, hsame]
  rcases raw.checkedPlain s with e | node
  · dsimp only
    split
    · exact .ok rfl (q _ _)
    · exact .error _ (q _ _)
  · exact .ok rfl (q _ _)

/-- Steps that leave the collaborators alone name what these lead to. -/
theorem namesAs_mapM {step : EditorNode → Build Node}
    (each : ∀ raw s, Ensures (step raw) s
      (fun node t => node.NamesAs raw s.collaborators ∧ t.collaborators = s.collaborators)
      fun _ _ => True) (raws : List EditorNode) (s : Session) :
    Ensures (raws.mapM step) s
      (fun built _ => List.Forall₂ (fun raw node => node.NamesAs raw s.collaborators) raws built)
      fun _ _ => True := by
  have named : Ensures (raws.mapM step) s
      (fun built t => List.Forall₂ (fun raw node => node.NamesAs raw s.collaborators) raws built ∧
        t.collaborators = s.collaborators) fun _ _ => True :=
    ensures_mapM_forall₂ (fun raw _ t hc => hc ▸ each raw t) rfl
  exact named.mono (fun _ _ h => h.1) fun _ _ h => h

variable {nested : NestedCompiler} (behaves : ∀ graph s, Session.Behaves (nested graph) s)

include behaves

theorem namesAs_buildNodes (nodes : List EditorNode) (s : Session) :
    Ensures (nodes.mapM (buildNode nested)) s
      (fun built _ => List.Forall₂ (fun raw node => node.NamesAs raw s.collaborators) nodes built)
      fun _ _ => True :=
  namesAs_mapM (fun raw t =>
    ((ensures_buildNode behaves raw t).and (namesAs_buildNode nested raw t)).mono
      (fun _ _ h => ⟨h.2, h.1.2.1.collaborators⟩) fun _ _ _ => trivial) nodes s

theorem namesAs_buildResources (resources : List EditorNode) (s : Session) :
    Ensures (resources.mapM (buildResource nested)) s
      (fun built _ =>
        List.Forall₂ (fun raw node => node.NamesAs raw s.collaborators) resources built)
      fun _ _ => True :=
  namesAs_mapM (fun raw t =>
    ((ensures_buildResource behaves raw t).and (namesAs_buildResource nested raw t)).mono
      (fun _ _ h => ⟨h.2, h.1.2.1.collaborators⟩) fun _ _ _ => trivial) resources s

theorem Resourced.namesAs {graph : EditorGraph} {s t : Session} {resources : List Node}
    (h : Resourced nested graph s resources t) :
    List.Forall₂ (fun raw node => node.NamesAs raw s.collaborators) graph.resources resources := by
  obtain ⟨built, u, hbuilt, hresources⟩ := h
  have named := (namesAs_buildResources behaves graph.resources s).of_ok hbuilt
  have second : Ensures ((graph.resources.zip built).mapM fun p => checkResource p.1 p.2) u
      (fun resources _ => List.Forall₂
        (fun (p : EditorNode × Node) (node : Node) => node.NamesAs p.1 s.collaborators)
        (graph.resources.zip built) resources ∧ True) fun _ _ => True :=
    ensures_mapM_forall₂ (fun p hp t _ =>
      (namesAs_checkResource (List.forall₂_zip named hp) t).mono (fun _ _ h => ⟨h, trivial⟩)
        fun _ _ h => h) trivial
  have hfst : (graph.resources.zip built).map Prod.fst = graph.resources :=
    List.map_fst_zip (Nat.le_of_eq named.length_eq)
  rw [← hfst]
  exact List.forall₂_map_left_iff.mpr (second.of_ok hresources).1

end Level

end WorkflowCompiler
