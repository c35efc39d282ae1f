import WorkflowCompiler.Proofs.Registry

/-!
# Kinds and roles

The role of a node in the graph is read off its kind in lower case, and what it holds is built by
the same kind. So a node that is no stand-in branches exactly when it is a fork, and nothing is
emitted for it exactly when it is a start, an end or an aggregator.
-/
namespace WorkflowCompiler

namespace NodeKind

theorem names_of_ofName? {name : String} {kind : NodeKind} (h : ofName? name = some kind) :
    ∃ names, (kind, names) ∈ table ∧ name ∈ names := by
  obtain ⟨⟨k, names⟩, hrow, rfl⟩ := Option.map_eq_some_iff.mp h
  exact ⟨names, List.mem_of_find?_eq_some hrow, by simpa using List.find?_some hrow⟩

/-- The kinds that branch. -/
def branches (kind : NodeKind) : Bool := kind = .ifs || kind = .switch || kind = .intention

/-- A kind that branches goes by the name of a fork. -/
theorem mem_forkNames {name : String} {kind : NodeKind} (h : ofName? name = some kind)
    (hb : kind.branches = true) : name ∈ forkNames := by
  obtain ⟨names, hrow, hname⟩ := names_of_ofName? h
  have all : ∀ row ∈ table, row.1.branches = true → row.2 ⊆ forkNames := by decide
  exact all (kind, names) hrow hb hname

theorem branches_of_mem_forkNames {name : String} (h : name ∈ forkNames) :
    ∃ kind, ofName? name = some kind ∧ kind.branches = true := by
  have all : ∀ name ∈ forkNames, (ofName? name).any branches = true := by decide
  simpa [Option.any_eq_true] using all name h

/-- The names of the kinds of which nothing is emitted. -/
def markerNames : List String := startNames ++ endNames ++ aggregatorNames

theorem mem_markerNames {name : String} (h : ofName? name = some .marker) : name ∈ markerNames := by
  obtain ⟨names, hrow, hname⟩ := names_of_ofName? h
  have all : ∀ row ∈ table, row.1 = .marker → row.2 ⊆ markerNames := by decide
  exact all (.marker, names) hrow rfl hname

theorem ofName?_of_mem_markerNames {name : String} (h : name ∈ markerNames) :
    ofName? name = some .marker := by
  have all : ∀ name ∈ markerNames, ofName? name = some .marker := by decide
  exact all name h

/-- No fork is a start, an end or an aggregator. -/
theorem not_mem_markerNames {name : String} (h : name ∈ forkNames) : name ∉ markerNames := by
  have all : ∀ name ∈ forkNames, name ∉ markerNames := by decide
  exact all name h

end NodeKind

namespace NodeBody

theorem branching?_isSome (body : NodeBody) :
    body.branching?.isSome = body.kind?.any NodeKind.branches := by
  cases body <;> rfl

theorem branching?_of_isFailed {body : NodeBody} (h : body.isFailed = true) :
    body.branching? = none := by
  cases body with
  | failed => rfl
  | _ => cases h

theorem visible_of_branching {body : NodeBody} {b : Branching} (h : body.branching? = some b) :
    body.isStructural = false := by
  cases body with
  | empty => cases h
  | _ => rfl

theorem isStructural_eq (body : NodeBody) : body.isStructural = (body.kind? = some .marker) := by
  cases body <;> simp [isStructural, kind?]

end NodeBody

namespace Node

/-- Whether the node is a start, an end or an aggregator. -/
def isMarker (node : Node) : Bool := node.isStart || node.isEnd || node.isAggregator

theorem isMarker_iff {node : Node} :
    node.isMarker = true ↔ node.lowerKind ∈ NodeKind.markerNames := by
  simp [isMarker, isStart, isEnd, isAggregator, NodeKind.markerNames, or_assoc]

theorem not_isMarker_of_isFork {node : Node} (h : node.isFork = true) :
    node.isMarker = false := by
  have hname : node.lowerKind ∈ NodeKind.forkNames := by simpa [isFork] using h
  have hno : node.isMarker ≠ true := fun hm =>
    NodeKind.not_mem_markerNames hname (isMarker_iff.mp hm)
  simpa using hno

theorem not_isFork_of_isMarker {node : Node} (h : node.isMarker = true) : node.isFork = false := by
  have hno : node.isFork ≠ true := fun hfork => by simp [not_isMarker_of_isFork hfork] at h
  simpa using hno

theorem not_isFork_of_isAggregator {node : Node} (h : node.isAggregator = true) :
    node.isFork = false := not_isFork_of_isMarker (by simp [isMarker, h])

theorem ofName?_of_isAggregator {node : Node} (h : node.isAggregator = true) :
    NodeKind.ofName? node.lowerKind = some .marker :=
  NodeKind.ofName?_of_mem_markerNames (isMarker_iff.mp (by simp [isMarker, h]))

/-- No end is a start. -/
theorem not_isStart_of_isEnd {node : Node} (h : node.isEnd = true) : node.isStart = false := by
  have hname : node.lowerKind ∈ NodeKind.endNames := by simpa [isEnd] using h
  have all : ∀ name ∈ NodeKind.endNames, NodeKind.startNames.contains name = false := by decide
  exact all _ hname

/-- Nothing is emitted for a node that holds the body of its kind exactly when it is a start, an end or
an aggregator. -/
theorem isStructural_of_kind {node : Node} (h : node.body.kind? = NodeKind.ofName? node.lowerKind) :
    node.isStructural = node.isMarker := by
  rw [Bool.eq_iff_iff, isMarker_iff]
  show node.body.isStructural = true ↔ _
  rw [NodeBody.isStructural_eq, h]
  exact ⟨NodeKind.mem_markerNames, NodeKind.ofName?_of_mem_markerNames⟩

namespace WellMade

variable {node : Node} (w : node.WellMade) (built : node.isFailed = false)

include w built

theorem kind : node.body.kind? = NodeKind.ofName? node.lowerKind :=
  w.body.resolve_left (by simp [built])

/-- A built node branches exactly when it is a fork. -/
theorem branching?_isSome : node.body.branching?.isSome = node.isFork := by
  rw [NodeBody.branching?_isSome, w.kind built, Bool.eq_iff_iff]
  constructor
  · intro h
    obtain ⟨kind, hkind, hb⟩ := (Option.any_eq_true _ _).mp h
    simpa [isFork] using NodeKind.mem_forkNames hkind hb
  · intro h
    have hname : node.lowerKind ∈ NodeKind.forkNames := by simpa [isFork] using h
    obtain ⟨kind, hkind, hb⟩ := NodeKind.branches_of_mem_forkNames hname
    exact (Option.any_eq_true _ _).mpr ⟨kind, hkind, hb⟩

/-- Nothing is emitted for a built node exactly when it is a start, an end or an aggregator. -/
theorem isStructural : node.isStructural = node.isMarker := isStructural_of_kind (w.kind built)

end WellMade

end Node

end WorkflowCompiler
