import WorkflowCompiler.Flow.Basic

/-!
# The run check

A node that could not be built is emitted as an empty mapping. A flow can run when no such
mapping stands among its nodes and resources, in the bodies of its forks, or in the flows embedded
in its sub-graphs.
-/
namespace WorkflowCompiler

namespace Json

/-- Whether the field `nodes` holds a list, as in an embedded flow. -/
def embedsFlow (args : JsonObject) : Bool :=
  match args.get? "nodes" with
  | some (.array _) => true
  | _ => false

mutual

/-- Whether an emitted node has nothing missing in it. -/
def nodeCanRun : Json → Bool
  | .object fields => !fields.isEmpty && argsCanRun fields
  | _ => false

/-- Whether the nodes of a list have nothing missing in them. -/
def nodesCanRun : List Json → Bool
  | [] => true
  | node :: rest => nodeCanRun node && nodesCanRun rest

/-- The check of the field `args` of a node: of an embedded flow, of the bodies of its cases, and
of the bodies of its two branches. -/
def argsCanRun : List (String × Json) → Bool
  | [] => true
  | (key, value) :: rest =>
      if key = "args" then
        match value with
        | .object args =>
            embeddedCanRun args && (!embedsFlow args || bodyCanRun "resources" args) &&
              bodyCanRun "true" args && bodyCanRun "false" args
        | _ => true
      else argsCanRun rest

/-- The check of the field `nodes`: a list of nodes, or bodies by case. -/
def embeddedCanRun : List (String × Json) → Bool
  | [] => true
  | (key, value) :: rest =>
      if key = "nodes" then
        match value with
        | .array nodes => nodesCanRun nodes
        | .object cases => casesCanRun cases
        | _ => true
      else embeddedCanRun rest

/-- The check of all bodies that are lists. -/
def casesCanRun : List (String × Json) → Bool
  | [] => true
  | (_, value) :: rest =>
      (match value with
        | .array nodes => nodesCanRun nodes
        | _ => true) && casesCanRun rest

/-- The check of a field that is a list of nodes when it is there. -/
def bodyCanRun (name : String) : List (String × Json) → Bool
  | [] => true
  | (key, value) :: rest =>
      if key = name then
        match value with
        | .array nodes => nodesCanRun nodes
        | _ => true
      else bodyCanRun name rest

end

/-- Whether the field of a flow is a list of nodes with nothing missing, or not there. -/
def partCanRun (flow : Json) (key : String) : Bool :=
  match flow.field? key with
  | some (.array nodes) => nodesCanRun nodes
  | some _ => false
  | none => true

/-- The run check on a flow that is held as plain JSON. -/
def flowCanRun (flow : Json) : Bool := partCanRun flow "nodes" && partCanRun flow "resources"

theorem nodesCanRun_eq_all (nodes : List Json) : nodesCanRun nodes = nodes.all nodeCanRun := by
  induction nodes with
  | nil => rfl
  | cons node rest ih => simp [nodesCanRun, ih]

end Json

/-- The run check: no node or resource, however deep, is an empty mapping. -/
def Flow.canRun (flow : Flow) : Bool :=
  (flow.nodes ++ flow.resources).all fun entry => Json.nodeCanRun (.object entry)

end WorkflowCompiler
