import WorkflowCompiler.Proofs.Node.Making

/-!
# What a node keeps

Connecting a node binds its inputs and notes what leaves its ports, and folding fills its branches.
Everything else about a node stays as it was built.
-/
namespace WorkflowCompiler

/-- The declared cases alone, without connections and branches. -/
def Branching.bare (b : Branching) : Branching := { b with leaving := [], branches := [] }

namespace NodeBody

/-- The body without what connecting and folding add to it. -/
def bare (body : NodeBody) : NodeBody :=
  match body.branching? with
  | some b => body.withBranching b.bare
  | none => body

@[simp] theorem kind?_bare (body : NodeBody) : body.bare.kind? = body.kind? := by
  cases body <;> rfl

@[simp] theorem isFailed_bare (body : NodeBody) : body.bare.isFailed = body.isFailed := by
  cases body <;> rfl

@[simp] theorem branching?_bare (body : NodeBody) :
    body.bare.branching? = body.branching?.map Branching.bare := by
  cases body <;> rfl

/-- The flow compiled into a sub-graph. -/
def compiled? : NodeBody → Option Flow
  | .subgraph _ flow => some flow
  | _ => none

@[simp] theorem compiled?_bare (body : NodeBody) : body.bare.compiled? = body.compiled? := by
  cases body <;> rfl

theorem bare_withBranching {body : NodeBody} {b c : Branching} (hb : body.branching? = some b)
    (h : c.cases = b.cases) : (body.withBranching c).bare = body.bare := by
  have hbare : c.bare = b.bare := by
    simp only [Branching.bare, h]
  cases body <;> cases hb <;> simp only [bare, branching?, withBranching, hbare]

theorem eq_retriever_of_bare {body : NodeBody} {r : RetrieverBody}
    (h : body.bare = .retriever r) : body = .retriever r := by
  cases body <;> first | exact h | cases h

end NodeBody

namespace Node

/-- The node without what connecting and folding add to it. -/
def bare (node : Node) : Node := { node with bindings := [], body := node.body.bare }

section Same

variable {a b : Node} (h : a.bare = b.bare)

include h

/-- What looks past the changes of connecting and folding sees no difference. -/
theorem eq_of_bare {α : Type} (f : Node → α) (past : ∀ node, f node.bare = f node) : f a = f b := by
  rw [← past a, ← past b, h]

theorem id_of_bare : a.id = b.id := eq_of_bare h Node.id fun _ => rfl

theorem kind_of_bare : a.kind = b.kind := eq_of_bare h Node.kind fun _ => rfl

theorem lowerKind_of_bare : a.lowerKind = b.lowerKind := eq_of_bare h Node.lowerKind fun _ => rfl

theorem resourceIds_of_bare : a.resourceIds = b.resourceIds :=
  eq_of_bare h Node.resourceIds fun _ => rfl

theorem isFork_of_bare : a.isFork = b.isFork := eq_of_bare h Node.isFork fun _ => rfl

theorem isAggregator_of_bare : a.isAggregator = b.isAggregator :=
  eq_of_bare h Node.isAggregator fun _ => rfl

theorem body_of_bare : a.body.bare = b.body.bare := congrArg Node.body h

theorem isFailed_of_bare : a.isFailed = b.isFailed :=
  eq_of_bare h Node.isFailed fun node => node.body.isFailed_bare

theorem kind?_of_bare : a.body.kind? = b.body.kind? :=
  eq_of_bare h (fun node => node.body.kind?) fun node => node.body.kind?_bare

theorem compiled?_of_bare : a.body.compiled? = b.body.compiled? :=
  eq_of_bare h (fun node => node.body.compiled?) fun node => node.body.compiled?_bare

theorem cases_of_bare :
    a.body.branching?.map Branching.cases = b.body.branching?.map Branching.cases := by
  refine eq_of_bare h (fun node => node.body.branching?.map Branching.cases) fun node => ?_
  show node.body.bare.branching?.map Branching.cases = _
  rw [NodeBody.branching?_bare, Option.map_map]
  rfl

theorem branching_of_bare {c : Branching} (hc : b.body.branching? = some c) :
    ∃ d, a.body.branching? = some d ∧ d.cases = c.cases := by
  have hcases := cases_of_bare h
  rw [hc] at hcases
  exact Option.map_eq_some_iff.mp hcases

end Same

/-- The nodes in any branch. -/
def members (node : Node) : List String :=
  (node.body.branching?.map Branching.members).getD []

/-- The ports of a fork. -/
def ports (node : Node) : List String :=
  (node.body.branching?.map fun b => b.leaving.keys).getD []

/-- What connecting a node leaves as it is besides what it was built with. -/
def outline (node : Node) : List String × List String := (node.members, node.ports)

@[simp] theorem bare_bindInput (node : Node) (handle : Option String) (source : String) :
    (node.bindInput handle source).bare = node.bare := by
  unfold bindInput
  split <;> rfl

@[simp] theorem outline_bindInput (node : Node) (handle : Option String) (source : String) :
    (node.bindInput handle source).outline = node.outline := by
  unfold bindInput
  split <;> rfl

theorem bare_updateBranching (node : Node) {f : Branching → Branching}
    (h : ∀ b, (f b).cases = b.cases) : (node.updateBranching f).bare = node.bare := by
  unfold updateBranching
  split
  · next b hb =>
    unfold bare
    simp only [NodeBody.bare_withBranching hb (h b)]
  · rfl

end Node

namespace Branching

theorem connect_eq_ok {b c : Branching} {node : String} {edge : EditorEdge}
    (h : b.connect node edge = .ok c) :
    b.leaving.get? (portOf edge) = some none ∧
      c = { b with leaving := b.leaving.insert (portOf edge) (some edge) } := by
  unfold connect at h
  dsimp only at h
  split at h
  · cases h
  · cases h
  · next hport =>
    exact ⟨hport, (Except.ok.inj h).symm⟩

/-- A connection that does not fit spoils the whole graph. -/
theorem connect_error {b : Branching} {node : String} {edge : EditorEdge} {e : CompileError}
    (h : b.connect node edge = .error e) : e.isRecoverable = false := by
  unfold connect at h
  dsimp only at h
  split at h
  all_goals first | cases h; rfl | cases h

end Branching

namespace Level

theorem leave_keeps {source made : Node} {edge : EditorEdge} {data : LinkData}
    (h : leave source edge = .ok (made, data)) :
    made.bare = source.bare ∧ made.outline = source.outline := by
  unfold leave at h
  dsimp only at h
  split at h
  · obtain ⟨rfl, -⟩ := Prod.mk.inj (pure_eq_ok.mp h)
    exact ⟨rfl, rfl⟩
  · next b hb =>
    obtain ⟨c, hc, h⟩ := bind_eq_ok.mp h
    obtain ⟨rfl, -⟩ := Prod.mk.inj (pure_eq_ok.mp h)
    obtain ⟨hport, rfl⟩ := Branching.connect_eq_ok hc
    have hkeys : Branching.portOf edge ∈ b.leaving.keys :=
      (Entries.contains_iff _ _).mp (Entries.contains_of_get? hport)
    constructor
    · unfold Node.bare
      simp only [NodeBody.bare_withBranching hb]
    · unfold Node.outline Node.members Node.ports
      simp [hb, Branching.members, Entries.keys_insert, hkeys]

/-- A fork is left by its own ports only. -/
theorem mem_ports_of_leave {source made : Node} {edge : EditorEdge} {data : LinkData}
    (h : leave source edge = .ok (made, data)) (fork : source.body.branching?.isSome = true) :
    Branching.portOf edge ∈ source.ports := by
  obtain ⟨b, hb⟩ := Option.isSome_iff_exists.mp fork
  unfold leave at h
  dsimp only at h
  simp only [hb] at h
  obtain ⟨c, hc, -⟩ := bind_eq_ok.mp h
  obtain ⟨hport, -⟩ := Branching.connect_eq_ok hc
  unfold Node.ports
  rw [hb]
  exact (Entries.contains_iff _ _).mp (Entries.contains_of_get? hport)

theorem leave_error {source : Node} {edge : EditorEdge} {e : CompileError}
    (h : leave source edge = .error e) : e.isRecoverable = false := by
  unfold leave at h
  dsimp only at h
  split at h
  · simp at h
  · rcases bind_eq_error.mp h with h | ⟨c, -, h⟩
    · exact Branching.connect_error h
    · simp at h

end Level

end WorkflowCompiler
