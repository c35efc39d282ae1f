import WorkflowCompiler.Library.Nesting
import WorkflowCompiler.Proofs.Compile.Containment
import WorkflowCompiler.Proofs.Compile.Coupling
import WorkflowCompiler.Proofs.Compile.Stripping
import WorkflowCompiler.Proofs.Editor.Encoding

/-!
# Graphs that unfold each other

A graph unfolds another when some of its nodes embed what the nodes of the other only refer to, and
so on inwards. Both compile to the same: each level is built from nodes that are the same but for
the graphs in their data, and after that nothing shows these graphs.
-/
namespace WorkflowCompiler

open Step

namespace EditorNode

/-- Whether a node is `raw`, or `raw` with a graph embedded that is related to the graph that `raw`
refers to. -/
inductive Unfolds (c : Collaborators) (o : Options) (R : EditorGraph → EditorGraph → Prop)
    (raw : EditorNode) : EditorNode → Prop
  | same : Unfolds c o R raw raw
  | embedded {inner nested : EditorGraph} (embeds : raw.Embeds c o inner)
      (legible : nested.Legible) (related : R inner nested) : Unfolds c o R raw (raw.embed nested)

theorem sameButGraph_embed (raw : EditorNode) (graph : EditorGraph) :
    raw.SameButGraph (raw.embed graph) :=
  ⟨rfl, fun _ h => (Entries.get?_insert_of_ne _ _ h).symm⟩

theorem stripped_ofEditor_embed (raw : EditorNode) (graph : EditorGraph) :
    (Node.ofEditor (raw.embed graph)).stripped = (Node.ofEditor raw).stripped := by
  have erased : (raw.embed graph).data.erase "config__patent_graph" =
      raw.data.erase "config__patent_graph" := Entries.erase_insert ..
  rw [(raw.sameButGraph_embed graph).ofEditor, Node.stripped, erased]
  rfl

/-- What is embedded is what is entered. -/
theorem nestedGraph_embed (raw : EditorNode) {graph : EditorGraph} (legible : graph.Legible)
    (s : Session) : Node.nestedGraph s (Node.ofEditor (raw.embed graph)) = .ok graph := by
  have held : ((Node.ofEditor (raw.embed graph)).data.get? "config__patent_graph").filter
      (fun value => !value.isNull) = some graph.encode := by
    rw [show (Node.ofEditor (raw.embed graph)).data.get? "config__patent_graph" = some graph.encode
      from Entries.get?_insert_self ..]
    rfl
  rw [Node.nestedGraph_embedded held, EditorGraph.decode_encode legible]
  rfl

namespace Unfolds

variable {c : Collaborators} {o : Options} {R : EditorGraph → EditorGraph → Prop}
  {a b : EditorNode} (h : a.Unfolds c o R b)

include h

theorem id : b.id = a.id := by cases h <;> rfl

theorem hasGraph (graph : a.HasGraph) : b.HasGraph := by
  cases h with
  | same => exact graph
  | embedded => exact (a.sameButGraph_embed _).hasGraph graph

theorem eq_of_plain (plain : ¬ a.HasGraph) : b = a := by
  cases h with
  | same => rfl
  | embedded embeds => exact absurd embeds.1 plain

theorem flavor : (Node.ofEditor b).flavor = (Node.ofEditor a).flavor := by
  cases h with
  | same => rfl
  | embedded => exact (a.sameButGraph_embed _).flavor

theorem appId : (Node.ofEditor b).appId = (Node.ofEditor a).appId := by
  cases h with
  | same => rfl
  | embedded => exact (a.sameButGraph_embed _).appId

theorem stripped : (Node.ofEditor b).stripped = (Node.ofEditor a).stripped := by
  cases h with
  | same => rfl
  | embedded => exact a.stripped_ofEditor_embed _

theorem stripped_placeholder (reason : String) :
    (Node.placeholder b reason).stripped = (Node.placeholder a reason).stripped :=
  congrArg (fun node : Node => node.withBody (.failed reason)) h.stripped

end Unfolds

end EditorNode

namespace Node

theorem stripped_withBody (node : Node) (body : NodeBody) :
    (node.withBody body).stripped = node.stripped.withBody body := rfl

theorem stripped_holder (node : Node) : node.holder.stripped = node.stripped.holder := by
  have happ : node.stripped.appId = node.appId := by
    unfold appId payloadString
    rw [payload_of_sameButGraph node.sameButGraph_stripped]
    rfl
  unfold holder
  rw [happ, apply_ite stripped]
  rfl

theorem stripped_holder_of_unfolds {c : Collaborators} {o : Options}
    {R : EditorGraph → EditorGraph → Prop} {a b : EditorNode} (h : a.Unfolds c o R b)
    (body : NodeBody) : ((ofEditor b).holder.withBody body).stripped =
      ((ofEditor a).holder.withBody body).stripped := by
  rw [stripped_withBody, stripped_withBody, stripped_holder, stripped_holder, h.stripped]

end Node

/-- Whether in related graphs each node of the second unfolds the node of the first in its place,
with related graphs inside, and all else is the same. -/
structure EditorGraph.Unfolding (c : Collaborators) (o : Options)
    (R : EditorGraph → EditorGraph → Prop) : Prop where
  refl : ∀ graph, R graph graph
  nodes : ∀ {graph graph' : EditorGraph}, R graph graph' →
    List.Forall₂ (EditorNode.Unfolds c o R) graph.nodes graph'.nodes
  edges : ∀ {graph graph' : EditorGraph}, R graph graph' → graph'.edges = graph.edges
  resources : ∀ {graph graph' : EditorGraph}, R graph graph' → graph'.resources = graph.resources

theorem EditorGraph.Unfolding.ids {c : Collaborators} {o : Options}
    {R : EditorGraph → EditorGraph → Prop} (unfolding : Unfolding c o R)
    {graph graph' : EditorGraph} (h : R graph graph') :
    graph'.nodes.map EditorNode.id = graph.nodes.map EditorNode.id := by
  have nodes := unfolding.nodes h
  generalize graph.nodes = xs, graph'.nodes = ys at nodes
  induction nodes with
  | nil => rfl
  | cons first _ ih => rw [List.map_cons, List.map_cons, first.id, ih]

/-- Sessions of the same surroundings that are the same but for the graphs embedded in what is
registered. -/
structure Session.Twin (c : Collaborators) (o : Options) (s s' : Session) : Prop where
  collaborators : s.collaborators = c
  options : s.options = o
  stripped : s.stripped = s'.stripped

namespace Session.Twin

variable {c : Collaborators} {o : Options} {s s' : Session} (h : s.Twin c o s')

include h

theorem collaborators' : s'.collaborators = c :=
  (congrArg Session.collaborators h.stripped).symm.trans h.collaborators

theorem options' : s'.options = o := (congrArg Session.options h.stripped).symm.trans h.options

theorem nesting : s'.nesting = s.nesting := (congrArg Session.nesting h.stripped).symm

theorem checkResources {a b : Node} (same : a.stripped = b.stripped) :
    s.checkResources a = s'.checkResources b := by
  rw [← s.checkResources_stripped, ← s'.checkResources_stripped, h.stripped, same]

theorem register {a b : Node} (same : a.stripped = b.stripped) :
    (s.register a).Twin c o (s'.register b) := by
  refine ⟨h.collaborators, h.options, ?_⟩
  rw [stripped_register, stripped_register, h.stripped, same]

theorem recordFailure (id : String) (e : CompileError) :
    (s.recordFailure id e).Twin c o (s'.recordFailure id e) :=
  ⟨h.collaborators, h.options, congrArg (fun s => s.recordFailure id e) h.stripped⟩

theorem within (app : String) : (s.within app).Twin c o (s'.within app) :=
  ⟨h.collaborators, h.options, congrArg (fun s => s.within app) h.stripped⟩

theorem leave : s.leave.Twin c o s'.leave :=
  ⟨h.collaborators, h.options, congrArg Session.leave h.stripped⟩

end Session.Twin

namespace Level

open Session

variable {c : Collaborators} {o : Options} {R : EditorGraph → EditorGraph → Prop}

/-- Two steps that end alike in twin sessions, unless they fail for the whole graph. -/
abbrev Twins {α β : Type} (c : Collaborators) (o : Options) (m : Build α) (m' : Build β)
    (S : α → β → Prop) (s s' : Session) : Prop :=
  Lockstep m m' s s' S (Twin c o) fun e t t' => e.isRecoverable = true → t.Twin c o t'

/-- Whatever a single node does to twin sessions, they stay twins. -/
theorem couples_twins (c : Collaborators) (o : Options) (R : EditorGraph → EditorGraph → Prop) :
    Couples (EditorNode.Unfolds c o R) (fun x y => x.stripped = y.stripped) (Twin c o) where
  standIn := fun h reason => (h.stripped_placeholder reason).symm
  record := fun h _ twin => h.id ▸ twin.recordFailure _ _
  checks := fun same twin => twin.checkResources same
  register := fun _ _ same twin => twin.register same

section Building

variable (unfolding : EditorGraph.Unfolding c o R) {nested : NestedCompiler}
  (agrees : ∀ {graph graph' : EditorGraph} {s s' : Session}, R graph graph' → s.Twin c o s' →
    Twins c o (nested graph) (nested graph') Eq s s') {s s' : Session}

include unfolding agrees

theorem twins_build {a b : EditorNode} (h : a.Unfolds c o R b) (twin : s.Twin c o s') :
    Twins c o (Node.build nested a) (Node.build nested b) (fun x y => x.stripped = y.stripped) s
      s' := by
  by_cases hsub : a.HasGraph
  · rw [Node.build_subgraph _ hsub, Node.build_subgraph _ (h.hasGraph hsub)]
    have entered : Corresponds (fun graph graph' => R graph graph')
        (Node.nestedGraph s (Node.ofEditor a)) (Node.nestedGraph s' (Node.ofEditor b)) := by
      cases h with
      | same =>
        rw [Node.nestedGraph_congr (s := s) (twin.collaborators'.trans twin.collaborators.symm)
          (twin.options'.trans twin.options.symm)]
        exact .refl unfolding.refl _
      | embedded embeds legible related =>
        have entered := Node.nestedGraph_congr (t := s)
          (s := { collaborators := c, options := o }) twin.collaborators twin.options
        rw [a.nestedGraph_embed legible, entered, embeds.2]
        exact .ok related
    refine Node.lockstep_buildNested ?_ (fun body => (Node.stripped_holder_of_unfolds h body).symm)
      Twin.leave twin
    unfold Node.entrance
    rw [h.flavor, h.appId]
    refine (Corresponds.refl (fun _ => rfl) (Node.ofEditor a).flavor).bind fun f f' hf => ?_
    refine entered.bind fun graph graph' related => ?_
    refine (enter_corresponds twin.nesting (twin.options'.trans twin.options.symm) _).bind ?_
    rintro _ _ ⟨rfl, rfl⟩
    exact .ok ⟨hf, agrees related (twin.within _)⟩
  · obtain rfl := h.eq_of_plain hsub
    unfold Twins Lockstep
    rw [Node.run_build_plain _ hsub, Node.run_build_plain _ hsub, twin.collaborators,
      twin.collaborators']
    rcases b.builtPlain c with e | node
    · exact .error e fun _ => twin
    · exact .ok rfl twin

/-- Related graphs compile to the same in twin sessions. -/
theorem lockstep_compile (behaves : ∀ graph s, Behaves (nested graph) s)
    {graph graph' : EditorGraph} (h : R graph graph') (twin : s.Twin c o s') :
    Lockstep (compile nested graph) (compile nested graph') s s' Eq
      (fun t t' => t.stripped = t'.stripped)
      fun e t t' => e.isRecoverable = true → t.stripped = t'.stripped := by
  rw [compile_eq, compile_eq, arrange_congr (unfolding.ids h) (unfolding.edges h),
    unfolding.resources h]
  have resources : List.Forall₂ (EditorNode.Unfolds c o R) graph.resources graph'.resources := by
    rw [unfolding.resources h]
    exact List.forall₂_same.mpr fun _ _ => .same
  have built := (couples_twins c o R).buildAll (twins_build unfolding agrees) behaves
    (unfolding.nodes h) resources twin
  have built : Lockstep (buildAll nested graph) (buildAll nested graph') s s' Eq (Twin c o)
      fun e t t' => e.isRecoverable = true → t.stripped = t'.stripped :=
    lockstep_of_run built (fun _ _ _ _ _ _ h ht => ⟨h, ht⟩)
      fun e t t' _ _ he hr => by simp [he] at hr
  refine built.bind fun _ _ t t' _ _ _ ht => ?_
  have arranged : Lockstep (arrange graph) (arrange graph) t t' Eq
      (fun t t' => t.stripped = t'.stripped)
      fun e t t' => e.isRecoverable = true → t.stripped = t'.stripped :=
    lockstep_of_run ((blind_arrange graph).lockstep ht.stripped)
      (fun _ _ _ _ _ _ h ht => ⟨h, ht⟩) fun _ _ _ _ _ h _ => h
  refine arranged.bind fun p q u u' _ _ hpq hu => ?_
  subst hpq
  refine lockstep_ofSession ?_ hu fun _ _ => hu
  rw [← Flattening.flow_stripped u, ← Flattening.flow_stripped u', hu]
  exact .refl (fun _ => rfl) _

end Building

/-- However deep graphs nest, related graphs compile to the same in twin sessions. -/
theorem twins_nestedCompiler (unfolding : EditorGraph.Unfolding c o R) (room : Nat)
    {graph graph' : EditorGraph} {s s' : Session} (h : R graph graph') (twin : s.Twin c o s') :
    Twins c o (nestedCompiler room graph) (nestedCompiler room graph') Eq s s' := by
  induction room generalizing graph graph' s s' with
  | zero => exact .error _ fun _ => twin
  | succ room ih =>
    have after : ∀ {t t' : Session}, s.Grows t → t.stripped = t'.stripped → t.Twin c o t' :=
      fun grows same =>
        ⟨grows.collaborators.trans twin.collaborators, grows.options.trans twin.options, same⟩
    have behaves := behaves_nestedCompiler (room + 1) graph s
    refine lockstep_of_run (lockstep_compile unfolding ih (behaves_nestedCompiler room) h twin)
      (fun _ _ t t' run _ h ht => ⟨h, after (behaves.of_ok run).toGrows ht⟩)
      fun e t t' run _ ht he => after (behaves.of_error run).grows (ht he)

end Level

/-- Related graphs compile to the same report, or fail for the same reason. -/
theorem EditorGraph.Unfolding.compile_eq {c : Collaborators} {o : Options}
    {R : EditorGraph → EditorGraph → Prop} (unfolding : Unfolding c o R)
    {graph graph' : EditorGraph} (h : R graph graph') : graph'.compile c o = graph.compile c o := by
  let s : Session := { collaborators := c, options := o }
  have agrees := @Level.twins_nestedCompiler c o R unfolding s.room
  have twin : s.Twin c o s := ⟨rfl, rfl, rfl⟩
  have runs := Level.lockstep_compile unfolding agrees (Level.behaves_nestedCompiler s.room) h twin
  unfold Lockstep at runs
  unfold EditorGraph.compile Session.compile
  generalize Level.compile (Level.nestedCompiler s.room) graph s = x,
    Level.compile (Level.nestedCompiler s.room) graph' s = y at runs
  cases runs with
  | @ok flow _ t t' related after =>
    subst related
    have failures : t'.failures = t.failures := (congrArg Session.failures after).symm
    exact congrArg (fun failures => Except.ok (Report.mk flow failures)) failures
  | error e after => rfl

end WorkflowCompiler
