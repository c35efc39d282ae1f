import WorkflowCompiler.Node.Construction
import WorkflowCompiler.Node.Emission

/-!
# Nodes with a graph of their own

Sub-graphs, batches, loops and references to apps. Their graph is compiled while the node is
built, in the session of the graph around it.
-/
namespace WorkflowCompiler

/-- A step of a compile. What it did to the session stays done when it fails. -/
abbrev Build (α : Type) := ExceptT CompileError (StateM Session) α

/-- Compiles the graph of a nested level. -/
abbrev NestedCompiler := EditorGraph → Build Flow

/-- Runs a step that only looks at the session. -/
def Build.ofSession {α : Type} (f : Session → Except CompileError α) : Build α := do
  f (← get)

/-- A stop condition as it is written. -/
inductive WrittenStop
  | count (maxCount : Option Json)
  | whileTrue (clauses : List Clause)

namespace WrittenStop

open Decode

/-- The tag of a stop condition. -/
def tag : Json → Except DecodeError String
  | .string name => .ok name
  | other => .error (other.shape.mismatch "variant identifier")

/-- The tag of a stop condition and what is written beside it: an object with a field `type`, or
an array that starts with the tag. -/
def split : Json → Except DecodeError (String × Json)
  | .object fields =>
    match Entries.get? fields "type" with
    | some value => (tag value).map fun name => (name, .object (Entries.erase fields "type"))
    | none => .error (.missingField "type")
  | .array (value :: items) => (tag value).map fun name => (name, .array items)
  | .array [] => .error (.missingField "type")
  | other => .error (other.shape.mismatch "internally tagged enum RawStopCondition")

/-- Decodes a stop condition. -/
def decode (value : Json) : Except DecodeError WrittenStop := do
  let (name, rest) ← split value
  if name = "count" then
    return .count (← record "struct variant RawStopCondition::Count"
      [defaulted "max_count" (optional json) fun v _ => v] none (HeldBack.mk rest))
  else if name = "while" then
    return .whileTrue (← record "struct variant RawStopCondition::While"
      [defaulted "conditions" (list Clause.decode) fun v _ => v] [] (HeldBack.mk rest))
  else throw (.unknownVariant name ["count", "while"])

/-- The number of rounds that a count allows. -/
def rounds? : Option Json → Option Nat
  | some (.number n) => (Json.number n).nat?
  | some (.string text) => Integer.readUnsigned (Text.trim text)
  | _ => none

end WrittenStop

namespace Node

/-- How a loop decides to stop. -/
def stopCondition (node : Node) : Except CompileError StopCondition := do
  let missing : CompileError := .missingField node.id (payloadKey "stop_condition")
  match node.payload "stop_condition" with
  | none => throw missing
  | some value =>
    match ← (WrittenStop.decode value).mapError (node.unreadablePart "stop condition") with
    | .count maxCount =>
      match WrittenStop.rounds? maxCount with
      | some times => return .count times
      | none => throw missing
    | .whileTrue clauses =>
      return .whileTrue (← Condition.ofClauses node.id clauses node.inputShape)

/-- How the graph of a node is run. -/
def flavor (node : Node) : Except CompileError SubgraphFlavor :=
  if node.lowerKind = "warp" then .ok (.warp (node.inputShape.map InputShape.isBatch))
  else if node.lowerKind = "loop" then do
    return .loop (← node.stopCondition) (node.payloadBool "judge_on_full_input" true)
  else .ok .plain

/-- The app that the graph of a node belongs to. -/
def appId (node : Node) : String := (node.payloadString "patent_id").getD node.id

/-- The graph of a node: the one embedded in it, else the stored one of its app. An `app` always
refers to the published version. -/
def nestedGraph (s : Session) (node : Node) : Except CompileError EditorGraph :=
  match (node.data.get? "config__patent_graph").filter fun value => !value.isNull with
  | some value => (EditorGraph.decode value).mapError (node.unreadablePart "nested graph")
  | none => do
      let version := if node.lowerKind = "app" then .publish else s.options.version
      let catalog ← s.collaborators.needWorkflows
      let workflow ← (catalog.workflow node.appId version).get "workflow" node.appId
      return workflow.graph

/-- Runs a step inside the graph of an app and leaves the graph again, however the step ends. -/
def inside {α : Type} (app : String) (step : Build α) : Build α := do
  set (← Build.ofSession fun s => s.enter app)
  fun s =>
    let (result, s) := step s
    (result, s.leave)

/-- Builds a node with a graph of its own. -/
def buildNested (nested : NestedCompiler) (node : Node) : Build Node := do
  let node :=
    if node.lowerKind = "app" ∨ node.lowerKind = "template" then node.referToApp node.appId
    else node
  let flavor ← node.flavor
  let graph ← Build.ofSession fun s => nestedGraph s node
  let compiled ← inside node.appId (nested graph)
  return node.withBody (.subgraph flavor compiled)

/-- Builds a node of a kind that needs no graph of its own. -/
def buildPlain (c : Collaborators) (node : Node) : NodeKind → Built
  | .marker => .ok (node.withBody .empty)
  | .code => node.buildCode
  | .formatter => .ok node.buildFormatter
  | .joinFormatter => .ok node.buildJoinFormatter
  | .llmAssisted => node.buildLlmAssisted
  | .service => .ok node.buildService
  | .ifs => .ok node.buildIfs
  | .switch => .ok node.buildSwitch
  | .intention => node.buildIntention
  | .llm => buildLlm c node
  | .localModel => buildLocalModel c node
  | .embedding => buildEmbedding c node
  | .reranker => buildReranker c node
  | .document => buildDocument c node
  | .retriever => node.buildRetriever
  | .sqlManager => buildSqlManager c node
  | .sqlCall => node.buildSqlCall
  | .httpTool => buildHttpTool c node
  | .servedTool => buildServedTool c node
  | .toolsForLlm => node.buildToolsForLlm
  | .functionCall => node.buildFunctionCall
  | .subgraph => .error (.invalidNodeType node.id node.kind)

/-- Builds a node of the editor by its kind. -/
def build (nested : NestedCompiler) (raw : EditorNode) : Build Node :=
  let node := ofEditor raw
  match NodeKind.ofName? node.lowerKind with
  | none => throw (.invalidNodeType node.id node.kind)
  | some .subgraph => buildNested nested node
  | some kind => Build.ofSession fun s => buildPlain s.collaborators node kind

end Node

end WorkflowCompiler
