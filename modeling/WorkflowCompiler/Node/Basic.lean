import WorkflowCompiler.Node.Body
import WorkflowCompiler.Node.Kind
import WorkflowCompiler.Text.Case

/-!
# Built nodes

A node or resource after it has been built: its identity and declared ports, its payload, the
resources it names, the connections bound to its inputs, and its body.
-/
namespace WorkflowCompiler

/-- One resource or several under one name. -/
inductive ResourceRef
  | one (id : String)
  | many (ids : List String)
  deriving DecidableEq, Repr

/-- The ids of the resources. -/
def ResourceRef.ids : ResourceRef → List String
  | .one id => [id]
  | .many ids => ids

/-- An input that is bound to a constant. -/
structure ConstantInput where
  constant : Json
  index : Nat
  deriving DecidableEq

/-- What is referred to without being a resource. -/
inductive ReferenceType
  | app
  | model
  deriving DecidableEq, Repr

/-- The type of reference with a name. -/
def ReferenceType.ofName (name : String) : Except CompileError ReferenceType :=
  if name = "app" then .ok .app
  else if name = "model" then .ok .model
  else .error (.unsupportedReferenceType name)

/-- A built node or resource. -/
structure Node where
  id : String
  /-- The kind as it was declared. -/
  kind : String
  /-- The kind in lower case, which decides what is built. -/
  lowerKind : String
  hyperparameter : JsonObject := []
  usedResources : Entries ResourceRef := []
  appReferences : List String := []
  modelReferences : List String := []
  /-- The ids of the input ports in order of declaration. -/
  inputPorts : List String := []
  /-- The connection that feeds each input port, as source and target. -/
  bindings : Entries (String × String) := []
  constants : List ConstantInput := []
  inputShape : List InputShape := []
  outputPorts : List OutputPort := []
  data : JsonObject := []
  body : NodeBody := .empty
  deriving DecidableEq

namespace Node

/-- The inputs that are bound to constants, with their positions. -/
def constantInputs (shapes : List InputShape) : List ConstantInput :=
  shapes.zipIdx.filterMap fun (shape, index) =>
    if shape.isConst then some ⟨shape.variableConst.getD .null, index⟩ else none

/-- A node of the editor without a body. -/
def ofEditor (raw : EditorNode) : Node where
  id := raw.id
  kind := raw.kind
  lowerKind := Text.lower raw.kind
  inputPorts := raw.inputPorts.map InputPort.id
  constants := constantInputs raw.inputShape
  inputShape := raw.inputShape
  outputPorts := raw.outputPorts
  data := raw.data

/-- A stand-in for a node that could not be built. It keeps its place in the graph but is emitted
as an empty mapping. -/
def placeholder (raw : EditorNode) (reason : String) : Node :=
  { ofEditor raw with body := .failed reason }

/-- The kind under which the node is emitted. -/
def emittedKind (node : Node) : String :=
  match node.body with
  | .llm _ => "LLM"
  | .subgraph .plain _ => "SubGraph"
  | .subgraph (.warp _) _ => "Warp"
  | .subgraph (.loop _ _) _ => "Loop"
  | _ => node.kind

/-- Whether the node opens branches. -/
def isFork (node : Node) : Bool := NodeKind.forkNames.contains node.lowerKind

/-- Whether the node closes branches. -/
def isAggregator (node : Node) : Bool := NodeKind.aggregatorNames.contains node.lowerKind

/-- Whether the node is an entry of the graph. -/
def isStart (node : Node) : Bool := NodeKind.startNames.contains node.lowerKind

/-- Whether the node is an exit of the graph. -/
def isEnd (node : Node) : Bool := NodeKind.endNames.contains node.lowerKind

/-- Whether the node always runs a local model. -/
def isLocalModel (node : Node) : Bool := NodeKind.localModelNames.contains node.lowerKind

/-- Whether the node holds or refers to a graph of its own. -/
def isSubgraph (node : Node) : Bool := NodeKind.subgraphNames.contains node.lowerKind

/-- Whether nothing is emitted for the node. -/
def isStructural (node : Node) : Bool := node.body.isStructural

/-- Whether the node is a stand-in. -/
def isFailed (node : Node) : Bool := node.body.isFailed

/-- The key of a payload value in the data. -/
def payloadKey (key : String) : String := "payload__" ++ key

/-- A payload value; `null` counts as absent. -/
def payload (node : Node) (key : String) : Option Json :=
  (node.data.get? (payloadKey key)).filter fun value => !value.isNull

/-- A payload text; the empty text counts as absent. -/
def payloadString (node : Node) (key : String) : Option String :=
  ((node.payload key).bind Json.string?).filter fun text => text ≠ ""

/-- A payload text, empty when it is absent. -/
def payloadText (node : Node) (key : String) : String := (node.payloadString key).getD ""

/-- A payload truth value. -/
def payloadBool (node : Node) (key : String) (default : Bool) : Bool :=
  ((node.payload key).bind Json.bool?).getD default

/-- A payload value, `null` when it is absent. -/
def payloadOrNull (node : Node) (key : String) : Json := (node.payload key).getD .null

/-- A payload text that has to be there. -/
def requireString (node : Node) (key : String) : Except CompileError String :=
  match node.payloadString key with
  | some text => .ok text
  | none => .error (.missingField node.id (payloadKey key))

/-- The ids in a payload value, which holds one or a list of them. -/
def payloadIds (node : Node) (key : String) : List String :=
  match node.payload key with
  | some (.string text) => if text = "" then [] else [text]
  | some (.array items) => (items.filterMap Json.string?).filter fun text => text ≠ ""
  | _ => []

/-- The payload without its kind and the listed keys, under the bare keys. -/
def payloadExcept (node : Node) (skip : List String) : JsonObject :=
  node.data.filterMap fun (key, value) =>
    match "payload__".toList.isPrefixOf? key.toList with
    | some rest =>
      let name := String.ofList rest
      if name = "kind" ∨ skip.contains name then none else some (name, value)
    | none => none

/-- Names resources that the node depends on. -/
def useResources (node : Node) (key : String) (resource : ResourceRef) : Node :=
  { node with usedResources := node.usedResources.insert key resource }

/-- The ids of all resources that the node names. -/
def resourceIds (node : Node) : List String := node.usedResources.values.flatMap ResourceRef.ids

/-- Adds a text to a list unless it is there. -/
def addOnce (texts : List String) (text : String) : List String :=
  if texts.contains text then texts else texts ++ [text]

/-- Notes that the node refers to an app. -/
def referToApp (node : Node) (id : String) : Node :=
  { node with appReferences := addOnce node.appReferences id }

/-- Notes that the node refers to a model. -/
def referToModel (node : Node) (id : String) : Node :=
  { node with modelReferences := addOnce node.modelReferences id }

/-- Notes a reference of a type given by name. -/
def refer (node : Node) (typeName id : String) : Except CompileError Node := do
  match ← ReferenceType.ofName typeName with
  | .app => return node.referToApp id
  | .model => return node.referToModel id

/-- The references of a type given by name. -/
def references (node : Node) (typeName : String) : Except CompileError (List String) := do
  match ← ReferenceType.ofName typeName with
  | .app => return node.appReferences
  | .model => return node.modelReferences

/-- The input port that a connection enters: the one that it names, or the only one when it names
none. -/
def portFor? (node : Node) : Option String → Option String
  | some handle => if node.inputPorts.contains handle then some handle else none
  | none =>
    match node.inputPorts with
    | [port] => some port
    | _ => none

/-- Binds the connection from `source` to the input port that it enters, if any. -/
def bindInput (node : Node) (handle : Option String) (source : String) : Node :=
  match node.portFor? handle with
  | some port => { node with bindings := node.bindings.insert port (source, node.id) }
  | none => node

/-- The position of an input port in order of declaration. -/
def portIndex? (node : Node) (handle : Option String) : Option Nat :=
  handle.bind fun handle => node.inputPorts.findIdx? fun port => port = handle

/-- The title that the editor shows. -/
def title (node : Node) : String :=
  match (node.data.get? "title").bind Json.string? with
  | some text => text
  | none => node.payloadText "title"

/-- Changes the branching of a fork. -/
def updateBranching (node : Node) (f : Branching → Branching) : Node :=
  match node.body.branching? with
  | some b => { node with body := node.body.withBranching (f b) }
  | none => node

end Node

end WorkflowCompiler
