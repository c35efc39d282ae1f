import WorkflowCompiler.Collaborators.Fixtures

/-!
# Backends

Collaborators that answer from fixtures, of which some are switched off and some are down. One that
is switched off is missing; one that is down fails every call, even when it is switched off too.
-/
namespace WorkflowCompiler

/-- Fixtures, and the names of the collaborators that do not answer from them. -/
structure Backend where
  fixtures : Fixtures := {}
  /-- The names of the collaborators that are switched off. -/
  disabled : List String := []
  /-- The failure of each collaborator that is down, by name. -/
  failing : Entries String := []

namespace Backend

/-- One collaborator: what it is while it is down, or what it is while it works. -/
def select {α : Type} (b : Backend) (name : String) (down : ServiceError → α) (working : α) :
    Option α :=
  match b.failing.get? name with
  | some text => some (down (.backend text))
  | none => if b.disabled.contains name then none else some working

/-- The library of stored workflows. -/
def library (b : Backend) : Library :=
  { b.fixtures.library with outage := b.failing.get? "workflows" }

/-- The collaborators, with the stored workflows looked up in the given library. -/
def collaborators (b : Backend) (library : Library) : Collaborators where
  models := b.select "models"
    (fun e => ⟨fun _ => .error e, fun _ => .error e, fun _ => .error e⟩) b.fixtures.models
  databases := b.select "databases" (fun e => ⟨fun _ => .error e⟩)
    ⟨fun id => .ok (b.fixtures.databases.get? id)⟩
  knowledgeBases := b.select "knowledge_bases" (fun e => ⟨fun _ => .error e⟩)
    ⟨fun id => .ok (b.fixtures.knowledgeBases.get? id)⟩
  tools := b.select "tools" (fun e => ⟨fun _ => .error e⟩)
    ⟨fun id => .ok (b.fixtures.tools.get? id)⟩
  servedTools := b.select "mcp" (fun e => ⟨fun _ => .error e⟩)
    ⟨fun id => .ok (b.fixtures.servedTools.get? id)⟩
  workflows := b.select "workflows" (fun e => ⟨fun _ _ => .error e⟩) library.catalog

/-- Whether the stored workflows are switched off and not down. -/
def lacksWorkflows (b : Backend) : Bool :=
  b.disabled.contains "workflows" && !b.failing.contains "workflows"

end Backend

end WorkflowCompiler
