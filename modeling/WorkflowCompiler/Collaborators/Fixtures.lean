import WorkflowCompiler.Library.Basic

/-!
# Fixtures

A set of tables from which every collaborator can answer, as it is read from a JSON file.
-/
namespace WorkflowCompiler

open Decode

/-- Tables for all collaborators. -/
structure Fixtures where
  apiKeys : Entries ApiKey := []
  modelPaths : Entries String := []
  modelNames : Entries String := []
  databases : Entries DatabaseInfo := []
  knowledgeBases : Entries String := []
  tools : Entries ToolRecord := []
  servedTools : Entries ServedTool := []
  workflows : List Workflow := []

namespace Fixtures

/-- Decodes fixtures. -/
def decode {α : Type} [Readable α] : α → Except DecodeError Fixtures :=
  record "struct ServiceFixtures"
    [ defaulted "api_keys" (map ApiKey.decode) fun v f => { f with apiKeys := v },
      defaulted "model_paths" (map string) fun v f => { f with modelPaths := v },
      defaulted "model_names" (map string) fun v f => { f with modelNames := v },
      defaulted "databases" (map DatabaseInfo.decode) fun v f => { f with databases := v },
      defaulted "knowledge_bases" (map string) fun v f => { f with knowledgeBases := v },
      defaulted "tools" (map ToolRecord.decode) fun v f => { f with tools := v },
      defaulted "mcp_tools" (map ServedTool.decode) fun v f => { f with servedTools := v },
      defaulted "workflows" (list Workflow.decode) fun v f => { f with workflows := v } ]
    {}

/-- Encodes fixtures. -/
def encode (fixtures : Fixtures) : Json :=
  .object
    [ ("api_keys", .object (fixtures.apiKeys.mapValues ApiKey.encode)),
      ("model_paths", .object (fixtures.modelPaths.mapValues .string)),
      ("model_names", .object (fixtures.modelNames.mapValues .string)),
      ("databases", .object (fixtures.databases.mapValues DatabaseInfo.encode)),
      ("knowledge_bases", .object (fixtures.knowledgeBases.mapValues .string)),
      ("tools", .object (fixtures.tools.mapValues ToolRecord.encode)),
      ("mcp_tools", .object (fixtures.servedTools.mapValues ServedTool.encode)),
      ("workflows", .array (fixtures.workflows.map Workflow.encode)) ]

/-- Reads fixtures from a text. -/
def load (text : String) : Except DecodeError Fixtures := Document.decode decode text

/-- The library of the stored workflows. -/
def library (fixtures : Fixtures) : Library := .ofList fixtures.workflows

/-- The models. -/
def models (fixtures : Fixtures) : ModelCatalog where
  apiKeyById id := .ok (fixtures.apiKeys.get? id)
  pathById id := .ok (fixtures.modelPaths.get? id)
  idByName name := .ok (fixtures.modelNames.get? name)

/-- Answers everything from the tables. -/
def collaborators (fixtures : Fixtures) : Collaborators where
  models := some fixtures.models
  databases := some ⟨fun id => .ok (fixtures.databases.get? id)⟩
  knowledgeBases := some ⟨fun id => .ok (fixtures.knowledgeBases.get? id)⟩
  tools := some ⟨fun id => .ok (fixtures.tools.get? id)⟩
  servedTools := some ⟨fun id => .ok (fixtures.servedTools.get? id)⟩
  workflows := some fixtures.library.catalog

end Fixtures

end WorkflowCompiler
