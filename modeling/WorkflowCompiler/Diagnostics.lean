import WorkflowCompiler.Text.Quoted

/-!
# Errors

What can go wrong while a graph is compiled, each cause with the ids it concerns, and the wording
of each. An error that concerns one node alone is recoverable: that node is emitted as a
placeholder and the compile goes on.
-/
namespace WorkflowCompiler

/-- Errors of the collaborators that a compile consults. -/
inductive ServiceError
  | notFound (what id : String)
  | backend (text : String)
  deriving DecidableEq, Repr

namespace ServiceError

/-- The error in words. -/
def message : ServiceError → String
  | .notFound what id => what ++ " '" ++ id ++ "' not found"
  | .backend text => "Service backend failure: " ++ text

end ServiceError

/-- Errors of a compile. -/
inductive CompileError
  | unreadable (text : String)
  | nodeNotFound (missing requiredBy : String)
  | invalidNodeType (node typeName : String)
  | invalidConnection (source handle text : String)
  | duplicateCaseEdge (node case : String)
  | cyclicGraph (unsorted : List String)
  | unclosedFork (fork : String)
  | unmatchedAggregator (aggregator : String)
  | missingField (node field : String)
  | resourceNotFound (resource node : String)
  | unsupportedReferenceType (name : String)
  | unsupportedConditionType (input typeName : String)
  | unsupportedConjunction (word : String)
  | unsupportedOperator (symbol : String)
  | unknownConditionVariable (node input : String)
  | invalidConditionValue (input typeName value : String)
  | missingApiKey (node : String)
  | invalidHistory (node text : String)
  | serviceUnavailable (name : String)
  | nestedCycle (app : String) (level : Nat)
  | nestingTooDeep (app : String) (maxDepth : Nat)
  | service (error : ServiceError)
  deriving DecidableEq, Repr

namespace CompileError

/-- Whether only the node at fault is lost, and the rest of the graph still compiles. -/
def isRecoverable : CompileError → Bool
  | .missingApiKey _ | .invalidHistory _ _ | .missingField _ _ | .resourceNotFound _ _
  | .serviceUnavailable _ | .service _ => true
  | _ => false

/-- The name of the kind of error. -/
def kind : CompileError → String
  | .unreadable _ => "JsonParseError"
  | .nodeNotFound _ _ => "NodeNotFound"
  | .invalidNodeType _ _ => "InvalidNodeType"
  | .invalidConnection _ _ _ => "ConnectionError"
  | .duplicateCaseEdge _ _ => "DuplicateCaseEdge"
  | .cyclicGraph _ => "CyclicGraph"
  | .unclosedFork _ => "UnclosedFork"
  | .unmatchedAggregator _ => "UnmatchedAggregator"
  | .missingField _ _ => "MissingField"
  | .resourceNotFound _ _ => "ResourceNotFound"
  | .unsupportedReferenceType _ => "UnsupportedReferenceType"
  | .unsupportedConditionType _ _ => "UnsupportedConditionType"
  | .unsupportedConjunction _ => "UnsupportedConjunction"
  | .unsupportedOperator _ => "UnsupportedOperator"
  | .unknownConditionVariable _ _ => "UnknownConditionVariable"
  | .invalidConditionValue _ _ _ => "InvalidConditionValue"
  | .missingApiKey _ => "MissingApiKey"
  | .invalidHistory _ _ => "InvalidHistory"
  | .serviceUnavailable _ => "ServiceUnavailable"
  | .nestedCycle _ _ => "NestedCycle"
  | .nestingTooDeep _ _ => "NestingTooDeep"
  | .service (.notFound _ _) => "ServiceNotFound"
  | .service (.backend _) => "ServiceBackend"

/-- The error in words. -/
def message : CompileError → String
  | .unreadable text => "Failed to parse workflow graph JSON: " ++ text
  | .nodeNotFound missing requiredBy =>
      "Node '" ++ missing ++ "' not found, which is required by a connection from node '" ++
        requiredBy ++ "'"
  | .invalidNodeType node typeName =>
      "Node '" ++ node ++ "' has an unregistered or invalid node type: '" ++ typeName ++ "'"
  | .invalidConnection source handle text =>
      "A connection from node '" ++ source ++ "' on handle '" ++ handle ++ "' is invalid: " ++ text
  | .duplicateCaseEdge node case =>
      "Case '" ++ case ++ "' of fork node '" ++ node ++ "' is connected more than once"
  | .cyclicGraph unsorted =>
      "The graph contains a cycle; nodes left unsorted: " ++ Text.quotedList unsorted
  | .unclosedFork fork => "Fork node '" ++ fork ++ "' has no matching aggregator"
  | .unmatchedAggregator aggregator =>
      "Aggregator node '" ++ aggregator ++ "' has no open fork to close"
  | .missingField node field =>
      "Node '" ++ node ++ "' is missing required field '" ++ field ++ "'"
  | .resourceNotFound resource node =>
      "Resource '" ++ resource ++ "' used by node '" ++ node ++ "' is not defined in the graph"
  | .unsupportedReferenceType name =>
      "Unsupported reference type '" ++ name ++ "', expected 'app' or 'model'"
  | .unsupportedConditionType input typeName =>
      "Unsupported condition variable type '" ++ typeName ++ "' for variable '" ++ input ++ "'"
  | .unsupportedConjunction word => "Unsupported condition conjunction '" ++ word ++ "'"
  | .unsupportedOperator symbol => "Unsupported condition operator '" ++ symbol ++ "'"
  | .unknownConditionVariable node input =>
      "Loop node '" ++ node ++ "' has no input variable named '" ++ input ++ "'"
  | .invalidConditionValue input typeName value =>
      "Value '" ++ value ++ "' cannot be read as " ++ typeName ++ " for variable '" ++ input ++
        "'"
  | .missingApiKey node => "API key is required for online inference. (node '" ++ node ++ "')"
  | .invalidHistory node text =>
      "Node '" ++ node ++ "' has an invalid built-in history: " ++ text
  | .serviceUnavailable name => "Service '" ++ name ++ "' is required but was not configured"
  | .nestedCycle app level =>
      "Nested graph '" ++ app ++ "' at level " ++ toString level ++
        " references one of its ancestors"
  | .nestingTooDeep app maxDepth =>
      "Nested graph '" ++ app ++ "' exceeds the maximum nesting depth of " ++ toString maxDepth
  | .service error => error.message

end CompileError

end WorkflowCompiler
