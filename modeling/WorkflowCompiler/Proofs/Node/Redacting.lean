import WorkflowCompiler.Proofs.Node.Checking

/-!
# Redacted mappings

An emitted mapping without the arguments of some sub-graphs. The arguments are taken out wherever
such a sub-graph is emitted: the mapping of a fork is followed into the branches of the fork, and so
on inwards.
-/
namespace WorkflowCompiler

namespace Json

/-- Whether a mapping is that of a sub-graph with one of these ids. -/
def isHidden (hidden : List String) (fields : JsonObject) : Bool :=
  match Entries.get? fields "id", Entries.get? fields "kind" with
  | some (.string id), some (.string kind) =>
      hidden.contains id && ["SubGraph", "Warp", "Loop"].contains kind
  | _, _ => false

/-- Whether a mapping is that of a fork. -/
def hasBranches (fields : JsonObject) : Bool :=
  match Entries.get? fields "kind" with
  | some (.string kind) => NodeKind.forkNames.contains (Text.lower kind)
  | _ => false

mutual

/-- An emitted mapping without the arguments of hidden sub-graphs. -/
def redacted (hidden : List String) : Json → Json
  | .object fields =>
      if isHidden hidden fields then .object (Entries.erase fields "args")
      else if hasBranches fields then .object (redactedArgs hidden fields)
      else .object fields
  | other => other

/-- Emitted mappings without the arguments of hidden sub-graphs. -/
def redactedAll (hidden : List String) : List Json → List Json
  | [] => []
  | node :: rest => redacted hidden node :: redactedAll hidden rest

/-- A branch of a fork with the nodes in it redacted. -/
def redactedBranch (hidden : List String) : Json → Json
  | .array nodes => .array (redactedAll hidden nodes)
  | other => other

/-- The cases of a fork with their branches redacted. -/
def redactedCases (hidden : List String) : List (String × Json) → List (String × Json)
  | [] => []
  | (key, value) :: rest => (key, redactedBranch hidden value) :: redactedCases hidden rest

/-- What stands for the cases of a fork with their branches redacted. -/
def redactedNodes (hidden : List String) : Json → Json
  | .object cases => .object (redactedCases hidden cases)
  | other => other

/-- The arguments of a fork with its branches redacted, which are cases or stand by themselves. -/
def redactedBranches (hidden : List String) : List (String × Json) → List (String × Json)
  | [] => []
  | (key, value) :: rest =>
      (key,
        if key = "nodes" then redactedNodes hidden value
        else if key = "true" ∨ key = "false" then redactedBranch hidden value
        else value) :: redactedBranches hidden rest

/-- What stands for the arguments of a fork with its branches redacted. -/
def redactedFork (hidden : List String) : Json → Json
  | .object args => .object (redactedBranches hidden args)
  | other => other

/-- The mapping of a fork with the branches in its arguments redacted. -/
def redactedArgs (hidden : List String) : List (String × Json) → List (String × Json)
  | [] => []
  | (key, value) :: rest =>
      (key, if key = "args" then redactedFork hidden value else value) :: redactedArgs hidden rest

end

/-- The fields of an emitted mapping without the arguments of hidden sub-graphs. -/
def redactedFields (hidden : List String) (fields : JsonObject) : JsonObject :=
  if isHidden hidden fields then Entries.erase fields "args"
  else if hasBranches fields then redactedArgs hidden fields
  else fields

@[simp] theorem redacted_object (hidden : List String) (fields : JsonObject) :
    redacted hidden (.object fields) = .object (redactedFields hidden fields) := by
  unfold redacted redactedFields
  split
  · rfl
  · split <;> rfl

theorem redactedArgs_append (hidden : List String) (fields more : JsonObject) :
    redactedArgs hidden (fields ++ more) = redactedArgs hidden fields ++ redactedArgs hidden more := by
  induction fields with
  | nil => rfl
  | cons e rest ih =>
    obtain ⟨key, value⟩ := e
    simp only [List.cons_append, redactedArgs, ih]

/-- What is put in beside the branches of a fork stays as it is. -/
theorem redactedBranches_insert (hidden : List String) (args : JsonObject) {key : String}
    (beside : key ∉ ["nodes", "true", "false"]) (value : Json) :
    redactedBranches hidden (args.insert key value) =
      Entries.insert (redactedBranches hidden args) key value := by
  simp only [List.mem_cons, List.not_mem_nil, or_false, not_or] at beside
  obtain ⟨hnodes, htrue, hfalse⟩ := beside
  induction args with
  | nil => simp [Entries.insert, redactedBranches, hnodes, htrue, hfalse]
  | cons e rest ih =>
    obtain ⟨other, held⟩ := e
    by_cases he : other = key
    · subst he
      simp [Entries.insert, redactedBranches, hnodes, htrue, hfalse]
    · simp only [Entries.insert, if_neg he, redactedBranches, ih]

theorem isHidden_nil (fields : JsonObject) : isHidden [] fields = false := by
  unfold isHidden
  split <;> rfl

mutual

theorem redacted_nil (value : Json) : redacted [] value = value := by
  cases value with
  | object fields => simp [redacted, isHidden_nil, redactedArgs_nil fields]
  | _ => rfl

theorem redactedAll_nil (nodes : List Json) : redactedAll [] nodes = nodes := by
  cases nodes with
  | nil => rfl
  | cons node rest => rw [redactedAll, redacted_nil node, redactedAll_nil rest]

theorem redactedBranch_nil (value : Json) : redactedBranch [] value = value := by
  cases value with
  | array nodes => rw [redactedBranch, redactedAll_nil nodes]
  | _ => rfl

theorem redactedCases_nil (cases : List (String × Json)) : redactedCases [] cases = cases := by
  cases cases with
  | nil => rfl
  | cons e rest => rw [redactedCases, redactedBranch_nil e.2, redactedCases_nil rest]

theorem redactedNodes_nil (value : Json) : redactedNodes [] value = value := by
  cases value with
  | object cases => rw [redactedNodes, redactedCases_nil cases]
  | _ => rfl

theorem redactedBranches_nil (args : List (String × Json)) : redactedBranches [] args = args := by
  cases args with
  | nil => rfl
  | cons e rest =>
    rw [redactedBranches, redactedNodes_nil e.2, redactedBranch_nil e.2, redactedBranches_nil rest,
      ite_self, ite_self]

theorem redactedFork_nil (value : Json) : redactedFork [] value = value := by
  cases value with
  | object args => rw [redactedFork, redactedBranches_nil args]
  | _ => rfl

theorem redactedArgs_nil (fields : List (String × Json)) : redactedArgs [] fields = fields := by
  cases fields with
  | nil => rfl
  | cons e rest => rw [redactedArgs, redactedFork_nil e.2, redactedArgs_nil rest, ite_self]

end

/-- Where nothing is hidden, nothing is taken out. -/
theorem redactedFields_nil (fields : JsonObject) : redactedFields [] fields = fields := by
  unfold redactedFields
  rw [isHidden_nil, redactedArgs_nil]
  simp

/-- Whether two mappings are the same without the arguments of hidden sub-graphs. -/
def SameBut (hidden : List String) (a b : JsonObject) : Prop :=
  redactedFields hidden a = redactedFields hidden b

theorem map_eq_of_sameBut {hidden : List String} {xs ys : List JsonObject}
    (h : List.Forall₂ (SameBut hidden) xs ys) :
    xs.map (redactedFields hidden) = ys.map (redactedFields hidden) := by
  induction h with
  | nil => rfl
  | cons first _ ih => rw [List.map_cons, List.map_cons, first, ih]

end Json

namespace Registry

open Json

variable {hidden : List String} (backflow : Bool) {node : Node}

theorem isHidden_frame (args : JsonObject) :
    isHidden hidden (frame backflow node args) =
      (hidden.contains node.id && ["SubGraph", "Warp", "Loop"].contains node.emittedKind) := by
  simp [isHidden, frame, Entries.get?]

theorem hasBranches_frame (args : JsonObject) :
    hasBranches (frame backflow node args) =
      NodeKind.forkNames.contains (Text.lower node.emittedKind) := by
  simp [hasBranches, frame, Entries.get?]

/-- Nothing is left of the arguments of a hidden sub-graph. -/
theorem redactedFields_frame_subgraph {flavor : SubgraphFlavor} {compiled : Flow}
    (body : node.body = .subgraph flavor compiled) (mem : node.id ∈ hidden) (args : JsonObject) :
    redactedFields hidden (frame backflow node args) =
      Entries.erase (frame backflow node []) "args" := by
  have hkind : ["SubGraph", "Warp", "Loop"].contains node.emittedKind = true := by
    unfold Node.emittedKind
    rw [body]
    cases flavor <;> rfl
  unfold redactedFields
  rw [isHidden_frame, hkind, if_pos (by simpa using mem)]
  simp [frame, Entries.erase]

/-- The mappings of a fork are the same when its branches are. -/
theorem sameBut_frame_fork (fork : NodeKind.forkNames.contains (Text.lower node.emittedKind) = true)
    {args args' : JsonObject} (h : redactedBranches hidden args = redactedBranches hidden args') :
    SameBut hidden (frame backflow node args) (frame backflow node args') := by
  have hreported : redactedBranches hidden (reported args) =
      redactedBranches hidden (reported args') := by
    unfold reported
    rw [redactedBranches_insert hidden args (by decide), redactedBranches_insert hidden args' (by decide),
      h]
  unfold SameBut redactedFields
  rw [isHidden_frame, isHidden_frame, hasBranches_frame, hasBranches_frame, fork, if_pos rfl, if_pos rfl]
  split
  · simp [frame, Entries.erase]
  · have hfork : redactedFork hidden (.object (reported args)) =
        redactedFork hidden (.object (reported args')) := by
      rw [redactedFork, redactedFork, hreported]
    unfold reported at hfork
    unfold frame
    rw [redactedArgs_append, redactedArgs_append]
    simp only [redactedArgs, if_true, hfork]

end Registry

end WorkflowCompiler
