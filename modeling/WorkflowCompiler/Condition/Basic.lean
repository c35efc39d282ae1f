import WorkflowCompiler.Condition.Literal

/-!
# Conditions

The stop condition of a loop as a tree of comparisons between the inputs of the loop and literals,
and its text in the expression language of the engine. In that language `and` binds tighter than
`or`, and both associate to the left.
-/
namespace WorkflowCompiler

/-- How an input is compared with a literal. -/
inductive Comparison
  | greaterThan
  | smallerThan
  | equal
  | notEqual
  | greaterThanOrEqual
  | smallerThanOrEqual
  deriving DecidableEq, Repr

namespace Comparison

/-- The sign of a comparison. -/
def symbol : Comparison → String
  | .greaterThan => ">"
  | .smallerThan => "<"
  | .equal => "=="
  | .notEqual => "!="
  | .greaterThanOrEqual => ">="
  | .smallerThanOrEqual => "<="

/-- The name of a comparison. -/
def name : Comparison → String
  | .greaterThan => "GreaterThan"
  | .smallerThan => "SmallerThan"
  | .equal => "Equal"
  | .notEqual => "NotEqual"
  | .greaterThanOrEqual => "GreaterThanOrEqual"
  | .smallerThanOrEqual => "SmallerThanOrEqual"

/-- All comparisons. -/
def all : List Comparison :=
  [.greaterThan, .smallerThan, .equal, .notEqual, .greaterThanOrEqual, .smallerThanOrEqual]

/-- The comparison with a sign, around which blanks may stand. -/
def read (text : String) : Except CompileError Comparison :=
  let sign := Text.trim text
  match all.find? fun c => c.symbol = sign with
  | some comparison => .ok comparison
  | none => .error (.unsupportedOperator sign)

end Comparison

/-- A condition on the inputs of a loop, which are numbered from zero. -/
inductive Condition
  | compare (index : Nat) (comparison : Comparison) (literal : Literal)
  | both (left right : Condition)
  | either (left right : Condition)
  deriving DecidableEq, Repr

namespace Condition

/-- How tight the uppermost connective binds. -/
def precedence : Condition → Nat
  | .either _ _ => 0
  | .both _ _ => 1
  | .compare _ _ _ => 2

/-- The text of an operand, in parentheses where it would otherwise be read apart. -/
def operand (outer : Nat) (isRight : Bool) (child : Condition) (text : String) : String :=
  if child.precedence < outer || (isRight && child.precedence = outer) then "(" ++ text ++ ")"
  else text

/-- The condition as the engine reads it. -/
def render : Condition → String
  | .compare index comparison literal =>
      "x[" ++ toString index ++ "] " ++ comparison.symbol ++ " " ++ literal.render
  | .both l r => operand 1 false l l.render ++ " and " ++ operand 1 true r r.render
  | .either l r => operand 0 false l l.render ++ " or " ++ operand 0 true r r.render

/-- The condition as a function of all inputs. -/
def toLambda (condition : Condition) : String := "lambda *x: " ++ condition.render

end Condition

end WorkflowCompiler
