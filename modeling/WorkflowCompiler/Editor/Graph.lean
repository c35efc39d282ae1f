import WorkflowCompiler.Json.Basic

/-!
# Editor graphs

A workflow graph as the editor stores it: nodes, the connections between them, and resources that
nodes share. What a node means stands in its data, under keys that start with `payload__` and
`config__`; whatever else the editor keeps beside it travels along unread.
-/
namespace WorkflowCompiler

/-- A node or resource of the editor. -/
structure EditorNode where
  id : String
  data : JsonObject := []
  extra : JsonObject := []
  deriving DecidableEq

/-- A connection between two nodes of the editor. -/
structure EditorEdge where
  source : String
  target : String
  sourceHandle : Option String := none
  targetHandle : Option String := none
  label : Option String := none
  formatter : Option String := none
  extra : JsonObject := []
  deriving DecidableEq

/-- A graph of the editor. -/
structure EditorGraph where
  nodes : List EditorNode := []
  edges : List EditorEdge := []
  resources : List EditorNode := []
  deriving DecidableEq

/-- A declared input variable. -/
structure InputShape where
  id : String := ""
  variableName : String := ""
  variableType : Option String := none
  variableMode : Option String := none
  variableConst : Option Json := none
  deriving DecidableEq

/-- A declared output port. Each port of a fork is one of its cases. -/
structure OutputPort where
  id : String
  label : Option String := none
  cond : Option Json := none
  chosen : Option Json := none
  selected : Option Json := none
  deriving DecidableEq

/-- A declared input port. -/
structure InputPort where
  id : String
  deriving DecidableEq

namespace InputShape

/-- Whether the input is bound to a constant. -/
def isConst (shape : InputShape) : Bool := shape.variableMode = some "mode-const"

/-- Whether the input is a batch that is worked through element by element. -/
def isBatch (shape : InputShape) : Bool := shape.variableMode = some "mode-batch"

end InputShape

namespace EditorNode

/-- The declared kind: `payload__kind`, else `type`, else nothing. -/
def kind (node : EditorNode) : String :=
  match node.data.get? "payload__kind" |>.bind Json.string? with
  | some kind => kind
  | none => (node.data.get? "type" |>.bind Json.string?).getD ""

end EditorNode

end WorkflowCompiler
