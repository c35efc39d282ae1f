import WorkflowCompiler.Diagnostics
import WorkflowCompiler.Json.Printer
import WorkflowCompiler.Number.Reading
import WorkflowCompiler.Text.Blank
import WorkflowCompiler.Text.Case

/-!
# Literals of conditions

The right-hand sides of comparisons: values read as the declared type of the input that they are
compared with, and written in the expression language of the engine.
-/
namespace WorkflowCompiler

/-- A typed literal. -/
inductive Literal
  | int (value : Int)
  | float (value : Double)
  | bool (value : Bool)
  | str (value : String)
  deriving DecidableEq, Repr

namespace Literal

/-- The name of the type of a literal, as inputs declare it. -/
def typeName : Literal → String
  | .int _ => "int"
  | .float _ => "float"
  | .bool _ => "bool"
  | .str _ => "str"

/-- The text of a value that is to be read as a literal. -/
def sourceText : Json → String
  | .string text => text
  | .null => ""
  | other => other.compact

/-- Reads a truth value: `true` or `1`, `false` or `0`, in any letter case. -/
def readBool (text : String) : Option Bool :=
  let word := Text.lower (Text.trim text)
  if word = "true" ∨ word = "1" then some true
  else if word = "false" ∨ word = "0" then some false
  else none

/-- Reads a value as the declared type of an input. -/
def coerce (input typeName : String) (raw : Json) : Except CompileError Literal :=
  let text := sourceText raw
  let expect (literal : Option Literal) : Except CompileError Literal :=
    match literal with
    | some literal => .ok literal
    | none => .error (.invalidConditionValue input typeName text)
  if typeName = "int" then expect ((Integer.readSigned (Text.trim text)).map .int)
  else if typeName = "float" then expect ((Double.read (Text.trim text)).map .float)
  else if typeName = "bool" then expect ((readBool text).map .bool)
  else if typeName = "str" then .ok (.str text)
  else .error (.unsupportedConditionType input typeName)

/-- A character inside single quotes. -/
def escapeChar (c : Char) : List Char :=
  if c = '\\' then ['\\', '\\']
  else if c = '\'' then ['\\', '\'']
  else if c = '\n' then ['\\', 'n']
  else if c = '\r' then ['\\', 'r']
  else if c = '\t' then ['\\', 't']
  else [c]

/-- The literal as the engine reads it. -/
def render : Literal → String
  | .int n => toString n
  | .float d => NumberStyle.literal.render d
  | .bool true => "True"
  | .bool false => "False"
  | .str text => String.ofList ('\'' :: text.toList.flatMap escapeChar ++ ['\''])

end Literal

end WorkflowCompiler
