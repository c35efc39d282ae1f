import WorkflowCompiler.Collaborators.Records
import WorkflowCompiler.Condition.Clause
import WorkflowCompiler.Flow.Basic
import WorkflowCompiler.Node.Branching

/-!
# Bodies of nodes

What a built node holds besides its identity, by kind.
-/
namespace WorkflowCompiler

/-- Where a model runs and how to reach it. -/
inductive ModelSource
  | online (source baseModel : String) (baseUrl : Option String) (credentials : ApiKey)
  | onDisk (path deployMethod : String)
  deriving DecidableEq

/-- How a loop decides to stop. -/
inductive StopCondition
  | count (times : Nat)
  | whileTrue (condition : Condition)
  deriving DecidableEq

/-- How a nested graph is run. -/
inductive SubgraphFlavor
  | plain
  /-- Once for each element of the inputs that are flagged as batches. -/
  | warp (batchFlags : List Bool)
  /-- Again and again until it is told to stop. -/
  | loop (stop : StopCondition) (judgeOnFullInput : Bool)
  deriving DecidableEq

/-- A chunking group of a document. -/
structure NodeGroup where
  name : String
  displayName : Option String := none
  settings : JsonObject := []
  deriving DecidableEq

/-- A set of documents to retrieve from. -/
structure DocumentBody where
  datasetPaths : List String
  embed : Option String
  groups : List NodeGroup
  deriving DecidableEq

/-- A query on a document. The group is named as in the editor until it is emitted. -/
structure RetrieverBody where
  doc : String
  groupName : String
  similarity : String
  topk : Nat
  target : Json
  outputFormat : Json
  deriving DecidableEq

/-- A reranker; one that uses no model has no source. -/
structure RerankerBody where
  rerankerType : String
  outputFormat : Json
  join : Json
  topk : Nat
  source : Option ModelSource
  deriving DecidableEq

/-- A chat model. -/
structure LlmBody where
  source : ModelSource
  prompt : Json
  history : Json
  stream : Bool
  deriving DecidableEq

/-- What a built node holds, by kind. -/
inductive NodeBody
  /-- A start, end or aggregator, of which nothing is emitted. -/
  | empty
  /-- A stand-in for a node that could not be built. -/
  | failed (reason : String)
  | code (code language : String)
  | formatter (ftype rule : Json)
  | joinFormatter (joinType names symbol : Json)
  | ifs (cond : String) (judgeOnFullInput : Bool) (branching : Branching)
  | switch (conversion : Option String) (judgeOnFullInput : Bool) (branching : Branching)
  | intention (baseModel : String) (prompt : Json) (branching : Branching)
  | subgraph (flavor : SubgraphFlavor) (compiled : Flow)
  | llm (body : LlmBody)
  | localModel (source : ModelSource)
  | embedding (source : ModelSource)
  | reranker (body : RerankerBody)
  | document (body : DocumentBody)
  | retriever (body : RetrieverBody)
  | sqlManager (connection : DatabaseInfo) (tables : Json)
  | sqlCall (llm sqlManager : String) (examples : Json) (useLlmForResult : Bool)
  | httpTool (http : ToolHttp)
  | servedTool (name description : String) (server : ToolServer)
  | toolsForLlm (tools : List String)
  | functionCall (llm : String) (tools : List String) (algorithm : String)
  | llmAssisted (baseModel : String) (settings : JsonObject)
  | service (settings : JsonObject)
  deriving DecidableEq

namespace NodeGroup

open Decode

/-- Decodes a group; what is in none of its fields belongs to its settings. -/
def decode {α : Type} [Readable α] : α → Except DecodeError NodeGroup :=
  openRecord "struct NodeGroup"
    [ required "name" string fun v g => { g with name := v },
      defaulted "display_name" (optional string) fun v g => { g with displayName := v } ]
    (fun key value g => { g with settings := g.settings.insert key value })
    { name := "" }

/-- Encodes a group; an absent display name is left out. -/
def encode (group : NodeGroup) : Json :=
  .object ([("name", .string group.name)] ++
    (match group.displayName with
      | some text => [("display_name", .string text)]
      | none => []) ++ group.settings)

end NodeGroup

namespace DocumentBody

/-- The name of the group that a retriever knows by its display name; other names stand for
themselves. -/
def groupName (body : DocumentBody) (name : String) : String :=
  match body.groups.find? fun group => group.displayName = some name with
  | some group => group.name
  | none => name

end DocumentBody

namespace NodeBody

/-- The branching of a fork. -/
def branching? : NodeBody → Option Branching
  | .ifs _ _ b | .switch _ _ b | .intention _ _ b => some b
  | _ => none

/-- The body with another branching, if it has one at all. -/
def withBranching : NodeBody → Branching → NodeBody
  | .ifs cond full _, b => .ifs cond full b
  | .switch conversion full _, b => .switch conversion full b
  | .intention baseModel prompt _, b => .intention baseModel prompt b
  | other, _ => other

/-- Whether nothing is emitted for such a node. -/
def isStructural : NodeBody → Bool
  | .empty => true
  | _ => false

/-- Whether this stands in for a node that could not be built. -/
def isFailed : NodeBody → Bool
  | .failed _ => true
  | _ => false

@[simp] theorem branching?_withBranching (body : NodeBody) (b : Branching) :
    (body.withBranching b).branching? = body.branching?.map fun _ => b := by
  cases body <;> rfl

end NodeBody

end WorkflowCompiler
