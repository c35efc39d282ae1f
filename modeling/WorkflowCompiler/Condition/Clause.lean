import WorkflowCompiler.Condition.Basic
import WorkflowCompiler.Editor.Codec

/-!
# Clauses

The editor writes a stop condition as a list of clauses, each with a word that joins it to the
next. Clauses are joined strictly from left to right; without a word they are joined by `and`.
-/
namespace WorkflowCompiler

/-- One clause of a stop condition. -/
structure Clause where
  variableName : String
  operator : String
  value : Json := .null
  conjunction : Option String := none
  deriving DecidableEq

/-- How two conditions are joined. -/
inductive Conjunction
  | and
  | or
  deriving DecidableEq, Repr

/-- Joins two conditions. -/
def Conjunction.join : Conjunction → Condition → Condition → Condition
  | .and, left, right => .both left right
  | .or, left, right => .either left right

namespace Clause

open Decode

/-- Decodes a clause. -/
def decode {α : Type} [Readable α] : α → Except DecodeError Clause :=
  record "struct ConditionClause"
    [ required "variable_name" string fun v c => { c with variableName := v },
      required "operator" string fun v c => { c with operator := v },
      defaulted "value" json fun v c => { c with value := v },
      defaulted "conjunction" (optional string) fun v c => { c with conjunction := v } ]
    { variableName := "", operator := "" }

/-- The comparison that a clause stands for. -/
def comparison (node : String) (inputs : List InputShape) (clause : Clause) :
    Except CompileError Condition := do
  match inputs.findIdx? fun shape => shape.variableName = clause.variableName with
  | none => .error (.unknownConditionVariable node clause.variableName)
  | some index =>
    let typeName := (inputs[index]?.bind InputShape.variableType).getD "str"
    let comparison ← Comparison.read clause.operator
    let literal ← Literal.coerce clause.variableName typeName clause.value
    return .compare index comparison literal

/-- The word that joins a clause to the next one. -/
def link (clause : Clause) : Except CompileError Conjunction :=
  let word := Text.trim (clause.conjunction.getD "")
  if word = "" ∨ word = "and" then .ok .and
  else if word = "or" then .ok .or
  else .error (.unsupportedConjunction word)

/-- Joins the remaining clauses to the condition on their left. -/
def joinAll (node : String) (inputs : List InputShape) :
    Condition → Conjunction → List Clause → Except CompileError Condition
  | left, _, [] => .ok left
  | left, word, clause :: rest => do
      let right ← clause.comparison node inputs
      let next ← clause.link
      joinAll node inputs (word.join left right) next rest

end Clause

/-- The condition of a list of clauses on the inputs of the loop `node`. -/
def Condition.ofClauses (node : String) (clauses : List Clause) (inputs : List InputShape) :
    Except CompileError Condition :=
  match clauses with
  | [] => .error (.missingField node "payload__stop_condition.conditions")
  | clause :: rest => do
      let first ← clause.comparison node inputs
      let word ← clause.link
      Clause.joinAll node inputs first word rest

end WorkflowCompiler
