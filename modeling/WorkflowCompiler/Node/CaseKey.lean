import WorkflowCompiler.Editor.Graph
import WorkflowCompiler.Json.Printer
import WorkflowCompiler.Number.Integer
import WorkflowCompiler.Number.Reading
import WorkflowCompiler.Text.Blank

/-!
# Case keys

The key under which the engine finds a case of a fork. A switch on a number brings the values of
its cases into the written form of that number; `default` is never changed.
-/
namespace WorkflowCompiler

namespace CaseKey

/-- The case that is taken when no other fits. -/
def fallback : String := "default"

/-- The key of a case value for a discriminator of the given type. A value that is no number of
that type is its own key. -/
def coerce (raw : String) (typeName : Option String) : String :=
  if raw = fallback then raw
  else
    let text := Text.trim raw
    if typeName = some "int" then ((Integer.readSigned text).map toString).getD raw
    else if typeName = some "float" then
      ((Double.read text).map NumberStyle.caseKey.render).getD raw
    else raw

/-- The value that a port of a fork declares: its condition when that is a text, a number or a
truth value, else its label, else its id. -/
def ofPort (port : OutputPort) : String :=
  let otherwise := port.label.getD port.id
  match port.cond with
  | some (.string text) => if text = "" then otherwise else text
  | some (.number n) => n.render
  | some (.bool b) => toString b
  | _ => otherwise

end CaseKey

end WorkflowCompiler
