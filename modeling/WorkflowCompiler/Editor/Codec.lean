import WorkflowCompiler.Editor.Graph
import WorkflowCompiler.Json.Decoding

/-!
# Editor graphs as JSON

Decoding and encoding of graphs, nodes, connections and declared ports. What is in none of the
modelled fields is kept and written back after them.
-/
namespace WorkflowCompiler

open Decode

variable {α : Type} [Readable α]

namespace EditorNode

/-- Decodes a node. -/
def decode : α → Except DecodeError EditorNode :=
  openRecord "struct RawNode"
    [ required "id" string fun v n => { n with id := v },
      defaulted "data" (map json) fun v n => { n with data := v } ]
    (fun key value n => { n with extra := n.extra.insert key value })
    { id := "" }

/-- Encodes a node. -/
def encode (node : EditorNode) : Json :=
  .object (("id", .string node.id) :: ("data", .object node.data) :: node.extra)

/-- The items of a list in the data that have the expected form; the others are left out. -/
def configList {β : Type} (node : EditorNode) (key : String)
    (item : Json → Except DecodeError β) : List β :=
  match node.data.get? key with
  | some (.array items) => items.filterMap fun x => (item x).toOption
  | _ => []

end EditorNode

namespace EditorEdge

/-- Decodes a connection; handles have two spellings. -/
def decode : α → Except DecodeError EditorEdge :=
  openRecord "struct RawEdge"
    [ required "source" string fun v e => { e with source := v },
      required "target" string fun v e => { e with target := v },
      aliased "sourceHandle" "source_handle" (optional string)
        fun v e => { e with sourceHandle := v },
      aliased "targetHandle" "target_handle" (optional string)
        fun v e => { e with targetHandle := v },
      defaulted "label" (optional string) fun v e => { e with label := v },
      defaulted "formatter" (optional string) fun v e => { e with formatter := v } ]
    (fun key value e => { e with extra := e.extra.insert key value })
    { source := "", target := "" }

/-- A field that is written only when it is set. -/
def encodeSet (key : String) : Option String → JsonObject
  | some text => [(key, .string text)]
  | none => []

/-- Encodes a connection; absent fields are left out. -/
def encode (edge : EditorEdge) : Json :=
  .object ([("source", .string edge.source), ("target", .string edge.target)] ++
    encodeSet "sourceHandle" edge.sourceHandle ++ encodeSet "targetHandle" edge.targetHandle ++
    encodeSet "label" edge.label ++ encodeSet "formatter" edge.formatter ++ edge.extra)

end EditorEdge

namespace EditorGraph

/-- Decodes a graph. -/
def decode : α → Except DecodeError EditorGraph :=
  record "struct RawGraph"
    [ defaulted "nodes" (list EditorNode.decode) fun v g => { g with nodes := v },
      defaulted "edges" (list EditorEdge.decode) fun v g => { g with edges := v },
      defaulted "resources" (list EditorNode.decode) fun v g => { g with resources := v } ]
    {}

/-- Encodes a graph. -/
def encode (graph : EditorGraph) : Json :=
  .object
    [ ("nodes", .array (graph.nodes.map EditorNode.encode)),
      ("edges", .array (graph.edges.map EditorEdge.encode)),
      ("resources", .array (graph.resources.map EditorNode.encode)) ]

/-- Why a value is no workflow graph. -/
inductive ImportError
  | notAnObject
  | malformed (error : DecodeError)
  deriving DecidableEq, Repr

/-- The error in words. -/
def ImportError.message : ImportError → String
  | .notAnObject => "Invalid custom data: workflow graph must be a JSON object"
  | .malformed error => "Invalid custom data: " ++ error.message

/-- The graph of a JSON value, which has to be an object. -/
def ofJson (value : Json) : Except ImportError EditorGraph :=
  match value with
  | .object _ => (decode value).mapError .malformed
  | _ => .error .notAnObject

/-- The graph of a JSON text. -/
def ofText (text : String) : Except ImportError EditorGraph :=
  match Json.read? text with
  | some value => ofJson value
  | none => .error (.malformed (.unreadable .notJson))

end EditorGraph

namespace InputShape

/-- Decodes an input variable. -/
def decode : α → Except DecodeError InputShape :=
  record "struct InputShape"
    [ defaulted "id" string fun v s => { s with id := v },
      defaulted "variable_name" string fun v s => { s with variableName := v },
      defaulted "variable_type" (optional string) fun v s => { s with variableType := v },
      defaulted "variable_mode" (optional string) fun v s => { s with variableMode := v },
      defaulted "variable_const" (optional json) fun v s => { s with variableConst := v } ]
    {}

/-- Encodes an input variable. -/
def encode (shape : InputShape) : Json :=
  .object
    [ ("id", .string shape.id),
      ("variable_name", .string shape.variableName),
      ("variable_type", .ofString? shape.variableType),
      ("variable_mode", .ofString? shape.variableMode),
      ("variable_const", shape.variableConst.getD .null) ]

end InputShape

namespace OutputPort

/-- Decodes an output port. -/
def decode : α → Except DecodeError OutputPort :=
  record "struct OutputPort"
    [ required "id" string fun v p => { p with id := v },
      defaulted "label" (optional string) fun v p => { p with label := v },
      defaulted "cond" (optional json) fun v p => { p with cond := v },
      defaulted "chosen" (optional json) fun v p => { p with chosen := v },
      defaulted "selected" (optional json) fun v p => { p with selected := v } ]
    { id := "" }

/-- Encodes an output port. -/
def encode (port : OutputPort) : Json :=
  .object
    [ ("id", .string port.id),
      ("label", .ofString? port.label),
      ("cond", port.cond.getD .null),
      ("chosen", port.chosen.getD .null),
      ("selected", port.selected.getD .null) ]

end OutputPort

namespace InputPort

/-- Decodes an input port. -/
def decode : α → Except DecodeError InputPort :=
  record "struct InputPort" [required "id" string fun v p => { p with id := v }] { id := "" }

/-- Encodes an input port. -/
def encode (port : InputPort) : Json := .object [("id", .string port.id)]

end InputPort

namespace EditorNode

/-- The declared input variables. -/
def inputShape (node : EditorNode) : List InputShape :=
  node.configList "config__input_shape" InputShape.decode

/-- The declared output ports. -/
def outputPorts (node : EditorNode) : List OutputPort :=
  node.configList "config__output_ports" OutputPort.decode

/-- The declared input ports. -/
def inputPorts (node : EditorNode) : List InputPort :=
  node.configList "config__input_ports" InputPort.decode

end EditorNode

end WorkflowCompiler
