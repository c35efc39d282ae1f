import WorkflowCompiler.Collaborators.Records
import WorkflowCompiler.Diagnostics
import WorkflowCompiler.Library.Workflow

/-!
# Collaborators

What a compile asks of the outside world, as functions that answer or fail. Each group of
functions may be missing; a node that needs a missing one cannot be built.
-/
namespace WorkflowCompiler

/-- The answer of a collaborator: a failure, nothing, or what was looked up. -/
abbrev Answer (α : Type) := Except ServiceError (Option α)

/-- Knows models, their paths and their credentials. -/
structure ModelCatalog where
  apiKeyById : String → Answer ApiKey
  pathById : String → Answer String
  idByName : String → Answer String

/-- Knows databases. -/
structure DatabaseCatalog where
  infoById : String → Answer DatabaseInfo

/-- Knows where knowledge bases are kept. -/
structure KnowledgeBaseCatalog where
  pathById : String → Answer String

/-- Knows registered tools. -/
structure ToolCatalog where
  toolById : String → Answer ToolRecord

/-- Knows the tools that servers offer. -/
structure ServedToolCatalog where
  toolById : String → Answer ServedTool

/-- Knows stored workflows. -/
structure WorkflowCatalog where
  workflow : String → GraphVersion → Answer Workflow

/-- All that a compile may consult. -/
structure Collaborators where
  models : Option ModelCatalog := none
  databases : Option DatabaseCatalog := none
  knowledgeBases : Option KnowledgeBaseCatalog := none
  tools : Option ToolCatalog := none
  servedTools : Option ServedToolCatalog := none
  workflows : Option WorkflowCatalog := none

/-- An answer that has to hold something; `what` and `id` are named when it does not. -/
def Answer.get {α : Type} (answer : Answer α) (what id : String) : Except CompileError α :=
  match answer with
  | .error error => .error (.service error)
  | .ok none => .error (.service (.notFound what id))
  | .ok (some value) => .ok value

/-- An answer that may hold nothing. -/
def Answer.get? {α : Type} (answer : Answer α) : Except CompileError (Option α) :=
  answer.mapError .service

namespace Collaborators

/-- A collaborator that has to be there. -/
def need {α : Type} (name : String) : Option α → Except CompileError α
  | some collaborator => .ok collaborator
  | none => .error (.serviceUnavailable name)

/-- The models. -/
def needModels (c : Collaborators) : Except CompileError ModelCatalog := need "model" c.models

/-- The databases. -/
def needDatabases (c : Collaborators) : Except CompileError DatabaseCatalog :=
  need "database" c.databases

/-- The knowledge bases. -/
def needKnowledgeBases (c : Collaborators) : Except CompileError KnowledgeBaseCatalog :=
  need "knowledge base" c.knowledgeBases

/-- The registered tools. -/
def needTools (c : Collaborators) : Except CompileError ToolCatalog := need "tool" c.tools

/-- The tools of servers. -/
def needServedTools (c : Collaborators) : Except CompileError ServedToolCatalog :=
  need "mcp" c.servedTools

/-- The stored workflows. -/
def needWorkflows (c : Collaborators) : Except CompileError WorkflowCatalog :=
  need "workflow" c.workflows

/-- Which collaborators are there, in words. -/
def describe (c : Collaborators) : String :=
  let flag (name : String) (present : Bool) := name ++ ": " ++ toString present
  "Services \x7b " ++ ", ".intercalate
    [ flag "models" c.models.isSome, flag "databases" c.databases.isSome,
      flag "knowledge_bases" c.knowledgeBases.isSome, flag "tools" c.tools.isSome,
      flag "mcp" c.servedTools.isSome, flag "workflows" c.workflows.isSome ] ++ " \x7d"

end Collaborators

end WorkflowCompiler
