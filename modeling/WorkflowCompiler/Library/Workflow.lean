import WorkflowCompiler.Editor.Codec

/-!
# Stored workflows

A stored workflow is one graph under an app id and a version. Drafts are being edited, published
versions are what other apps refer to.
-/
namespace WorkflowCompiler

/-- The version of a stored graph. -/
inductive GraphVersion
  | draft
  | publish
  deriving DecidableEq, Repr

/-- A stored workflow. -/
structure Workflow where
  appId : String
  version : GraphVersion := .draft
  graph : EditorGraph := {}
  deriving DecidableEq

open Decode

namespace GraphVersion

/-- The versions by name. -/
def names : List (String × GraphVersion) := [("draft", .draft), ("publish", .publish)]

/-- The name of a version. -/
def name : GraphVersion → String
  | .draft => "draft"
  | .publish => "publish"

/-- Decodes a version. -/
def decode {α : Type} [Readable α] : α → Except DecodeError GraphVersion := choice names

/-- Encodes a version. -/
def encode (version : GraphVersion) : Json := .string version.name

end GraphVersion

namespace Workflow

/-- Decodes a stored workflow. -/
def decode {α : Type} [Readable α] : α → Except DecodeError Workflow :=
  record "struct Workflow"
    [ required "app_id" string fun v w => { w with appId := v },
      defaulted "version" GraphVersion.decode fun v w => { w with version := v },
      defaulted "graph" EditorGraph.decode fun v w => { w with graph := v } ]
    { appId := "" }

/-- Encodes a stored workflow. -/
def encode (workflow : Workflow) : Json :=
  .object
    [ ("app_id", .string workflow.appId),
      ("version", workflow.version.encode),
      ("graph", workflow.graph.encode) ]

end Workflow

end WorkflowCompiler
