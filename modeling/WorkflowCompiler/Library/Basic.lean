import WorkflowCompiler.Collaborators.Basic

/-!
# The library of workflows

Stored workflows, one row for each app id and version, in the order in which they were first
saved. A library that is out of order answers every call with the reason.
-/
namespace WorkflowCompiler

/-- A library of stored workflows. -/
structure Library where
  rows : List Workflow := []
  /-- Why every call fails, if it does. -/
  outage : Option String := none
  deriving DecidableEq

namespace Library

/-- Whether a row is that of an app id and a version. -/
def isRow (appId : String) (version : GraphVersion) (row : Workflow) : Bool :=
  row.appId = appId && row.version = version

/-- The row of an app id and a version, whatever the state of the library. -/
def row? (library : Library) (appId : String) (version : GraphVersion) : Option Workflow :=
  library.rows.find? (isRow appId version)

/-- Puts a workflow into its row: a present row keeps its place, a new one goes to the end. -/
def put (rows : List Workflow) (workflow : Workflow) : List Workflow :=
  match rows with
  | [] => [workflow]
  | row :: rest =>
      if isRow workflow.appId workflow.version row then workflow :: rest
      else row :: put rest workflow

/-- A library that holds these workflows, later ones replacing earlier ones of the same row. -/
def ofList (workflows : List Workflow) : Library := ⟨workflows.foldl put [], none⟩

/-- Looks a row up. -/
def lookup (library : Library) (appId : String) (version : GraphVersion) : Answer Workflow :=
  match library.outage with
  | some text => .error (.backend text)
  | none => .ok (library.row? appId version)

/-- Saves a workflow in its row. -/
def save (library : Library) (workflow : Workflow) : Except ServiceError Library :=
  match library.outage with
  | some text => .error (.backend text)
  | none => .ok { library with rows := put library.rows workflow }

/-- The library as a collaborator of compiles. -/
def catalog (library : Library) : WorkflowCatalog := ⟨library.lookup⟩

end Library

end WorkflowCompiler
