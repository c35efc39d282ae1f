import WorkflowCompiler.Json.Decoding
import WorkflowCompiler.Json.Printer

/-!
# Flows

The flat form of a compiled graph that an execution engine runs: emitted nodes in order, the
connections between them, and the resources they use. A flow is saved as indented JSON.
-/
namespace WorkflowCompiler

/-- A connection of a flow. Entry and exit of the graph are `__start__` and `__end__`. -/
structure FlowEdge where
  iid : String
  oid : String
  formatter : Option String := none
  deriving DecidableEq

/-- A compiled flow. -/
structure Flow where
  nodes : List JsonObject := []
  edges : List FlowEdge := []
  resources : List JsonObject := []
  deriving DecidableEq

namespace FlowEdge

open Decode

/-- Decodes a connection. -/
def decode {α : Type} [Readable α] : α → Except DecodeError FlowEdge :=
  record "struct FlowEdge"
    [ required "iid" string fun v e => { e with iid := v },
      required "oid" string fun v e => { e with oid := v },
      defaulted "formatter" (optional string) fun v e => { e with formatter := v } ]
    { iid := "", oid := "" }

/-- Encodes a connection; an absent formatter is left out. -/
def encode (edge : FlowEdge) : Json :=
  .object ([("iid", .string edge.iid), ("oid", .string edge.oid)] ++
    match edge.formatter with
    | some text => [("formatter", .string text)]
    | none => [])

end FlowEdge

namespace Flow

open Decode

/-- Decodes a flow. -/
def decode {α : Type} [Readable α] : α → Except DecodeError Flow :=
  record "struct CompiledFlow"
    [ required "nodes" (list (map json)) fun v f => { f with nodes := v },
      required "edges" (list FlowEdge.decode) fun v f => { f with edges := v },
      required "resources" (list (map json)) fun v f => { f with resources := v } ]
    {}

/-- The three parts of a flow under their keys. -/
def fields (flow : Flow) : JsonObject :=
  [ ("nodes", .array (flow.nodes.map .object)),
    ("edges", .array (flow.edges.map FlowEdge.encode)),
    ("resources", .array (flow.resources.map .object)) ]

/-- Encodes a flow. -/
def encode (flow : Flow) : Json := .object flow.fields

/-- The text in which a flow is saved. -/
def save (flow : Flow) : String := flow.encode.pretty

/-- Loads a flow from a text. -/
def load (text : String) : Except DecodeError Flow := Document.decode decode text

/-- The first of the mappings that has this id. -/
def find? (entries : List JsonObject) (id : String) : Option JsonObject :=
  entries.find? fun entry => Entries.get? entry "id" == some (.string id)

/-- The emitted node with this id. -/
def node? (flow : Flow) (id : String) : Option JsonObject := find? flow.nodes id

/-- The emitted resource with this id. -/
def resource? (flow : Flow) (id : String) : Option JsonObject := find? flow.resources id

end Flow

end WorkflowCompiler
