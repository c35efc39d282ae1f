import WorkflowCompiler.Json.Basic

/-!
# JSON documents

A JSON text as it is written: keys may be repeated, and parts may be flawed. A document without
flaws stands for a value, in which a repeated key has its first place and its last value; one that
only follows the grammar can be skipped.
-/
namespace WorkflowCompiler

/-- What is wrong with a part of a text: it follows the grammar but stands for no value, or reading
ends in it because it does not follow the grammar or because the text ends. -/
inductive Flaw
  | valueless
  | ungrammatical
  | truncated
  deriving DecidableEq, Repr

/-- The flaw of a part without a value: whether the text could be `passed` over to its end. -/
def Flaw.ofPassed (passed : Option (List Char)) : Flaw :=
  if passed.isSome then .valueless else .ungrammatical

/-- The flaw of a part that goes on with `rest` where it should have ended. -/
def Flaw.before (rest : List Char) : Flaw :=
  if rest.isEmpty then .truncated else .ungrammatical

/-- A JSON text as it is written. An object that is flawed beyond its parts has the fields in front
of the flaw; a literal is a number or a word. -/
inductive Document
  | null
  | bool (value : Bool)
  | number (value : JsonNumber)
  | string (value : String)
  | array (items : List Document)
  | object (fields : List (String × Document)) (flaw : Option Flaw)
  | flawedLiteral (flaw : Flaw)
  | flawed (flaw : Flaw)

namespace Document

mutual

/-- The value that a document stands for. -/
def toJson? : Document → Option Json
  | .null => some .null
  | .bool b => some (.bool b)
  | .number n => some (.number n)
  | .string text => some (.string text)
  | .array items => (itemsToJson? items).map .array
  | .object fields none => (fieldsToJson? fields).map fun fs => .object (Entries.ofPairs fs)
  | .object _ (some _) => none
  | .flawedLiteral _ => none
  | .flawed _ => none

/-- The values of all items. -/
def itemsToJson? : List Document → Option (List Json)
  | [] => some []
  | d :: ds => do return (← toJson? d) :: (← itemsToJson? ds)

/-- The values of all fields, repeated keys included. -/
def fieldsToJson? : List (String × Document) → Option (List (String × Json))
  | [] => some []
  | (key, d) :: ds => do return (key, ← toJson? d) :: (← fieldsToJson? ds)

end

mutual

/-- Whether a document follows the grammar. -/
def isGrammatical : Document → Bool
  | .array items => itemsAreGrammatical items
  | .object fields flaw => fieldsAreGrammatical fields && flaw.all (· = .valueless)
  | .flawedLiteral flaw => flaw = .valueless
  | .flawed flaw => flaw = .valueless
  | _ => true

/-- Whether all items follow the grammar. -/
def itemsAreGrammatical : List Document → Bool
  | [] => true
  | d :: ds => isGrammatical d && itemsAreGrammatical ds

/-- Whether all fields follow the grammar. -/
def fieldsAreGrammatical : List (String × Document) → Bool
  | [] => true
  | (_, d) :: ds => isGrammatical d && fieldsAreGrammatical ds

end

end Document

end WorkflowCompiler
