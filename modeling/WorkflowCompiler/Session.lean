import WorkflowCompiler.Collaborators.Basic
import WorkflowCompiler.Node.Basic

/-!
# Sessions

All that the nodes of one compile share: the registry of built nodes, the collaborators and
options, the apps whose graphs are being compiled, and the failures so far. Nested graphs are
compiled in the session of the graph around them.
-/
namespace WorkflowCompiler

/-- Settings of a whole compile. -/
structure Options where
  /-- What is emitted for nodes that do not say whether backflow is enabled. -/
  defaultEnableBackflow : Bool := false
  /-- The version of graphs that are referred to and not embedded. -/
  version : GraphVersion := .draft
  /-- How deep graphs may nest. -/
  maxDepth : Nat := 16
  deriving DecidableEq, Repr

namespace Options

open Decode

/-- Decodes options. -/
def decode {α : Type} [Readable α] : α → Except DecodeError Options :=
  record "struct ConvertOptions"
    [ defaulted "default_enable_backflow" bool fun v o => { o with defaultEnableBackflow := v },
      defaulted "version" GraphVersion.decode fun v o => { o with version := v },
      defaulted "max_depth" (natural "usize") fun v o => { o with maxDepth := v } ]
    {}

/-- Encodes options. -/
def encode (options : Options) : Json :=
  .object
    [ ("default_enable_backflow", .bool options.defaultEnableBackflow),
      ("version", options.version.encode),
      ("max_depth", .ofNat options.maxDepth) ]

end Options

/-- A node that could not be built, and why. -/
structure NodeFailure where
  nodeId : String
  error : CompileError
  deriving DecidableEq

/-- Built nodes by id, in the order in which the ids were first registered. -/
abbrev Registry := Entries Node

/-- The state of one compile. -/
structure Session where
  registry : Registry := []
  collaborators : Collaborators := {}
  options : Options := {}
  /-- The apps whose graphs are being compiled, the outermost first. -/
  nesting : List String := []
  failures : List NodeFailure := []

namespace Session

/-- The built node with an id. -/
def node? (s : Session) (id : String) : Option Node := s.registry.get? id

/-- Registers a node in place of any node with the same id. -/
def register (s : Session) (node : Node) : Session :=
  { s with registry := s.registry.insert node.id node }

/-- Changes a registered node. -/
def modifyNode (s : Session) (id : String) (f : Node → Node) : Session :=
  { s with registry := s.registry.modify id f }

/-- The number of graphs that are being compiled one inside the other. -/
def depth (s : Session) : Nat := s.nesting.length

/-- How many more graphs may be nested. -/
def room (s : Session) : Nat := s.options.maxDepth - s.depth

/-- Enters the graph of an app, which must not be entered already. -/
def enter (s : Session) (app : String) : Except CompileError Session :=
  if s.nesting.contains app then .error (.nestedCycle app s.depth)
  else if s.options.maxDepth ≤ s.depth then .error (.nestingTooDeep app s.options.maxDepth)
  else .ok { s with nesting := s.nesting ++ [app] }

/-- Leaves the graph that was entered last. -/
def leave (s : Session) : Session := { s with nesting := s.nesting.dropLast }

/-- Records that a node could not be built. -/
def recordFailure (s : Session) (nodeId : String) (error : CompileError) : Session :=
  { s with failures := s.failures ++ [⟨nodeId, error⟩] }

/-- Fails at the first resource of a node that is not registered. -/
def checkResources (s : Session) (node : Node) : Except CompileError Unit :=
  match node.resourceIds.find? fun id => !s.registry.contains id with
  | some id => .error (.resourceNotFound id node.id)
  | none => .ok ()

end Session

end WorkflowCompiler
