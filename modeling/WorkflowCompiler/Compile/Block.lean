import WorkflowCompiler.Session
import WorkflowCompiler.Wiring.Paths

/-!
# Blocks

A fork and the aggregator that closes it form a block. In topological order forks and aggregators
are matched like brackets; the blocks are then folded into their forks, the innermost first, which
turns the nodes between fork and aggregator into the branches of the fork.
-/
namespace WorkflowCompiler

/-- A fork, the aggregator that closes it, and the blocks between the two. -/
inductive Block
  | mk (start stop : String) (children : List Block)

namespace Block

/-- The fork of a block. -/
def start : Block → String
  | .mk start _ _ => start

/-- The aggregator of a block. -/
def stop : Block → String
  | .mk _ stop _ => stop

/-- The blocks inside a block. -/
def children : Block → List Block
  | .mk _ _ children => children

/-- A block that is not closed yet. -/
structure Opened where
  start : String
  children : List Block := []

/-- What an id is in the matching of brackets. -/
inductive Bracket
  | opening
  | closing
  deriving DecidableEq, Repr

/-- The bracket that a registered node is, if any. -/
def bracket? (registry : Registry) (id : String) : Option Bracket :=
  (registry.get? id).bind fun node =>
    if node.isFork then some .opening
    else if node.isAggregator then some .closing
    else none

/-- Matches the remaining ids, given the finished blocks and the open ones, innermost first. -/
def matchFrom (registry : Registry) :
    (roots : List Block) → (opened : List Opened) → List String → Except CompileError (List Block)
  | roots, [], [] => .ok roots
  | _, o :: _, [] => .error (.unclosedFork o.start)
  | roots, opened, id :: ids =>
    match bracket? registry id with
    | none => matchFrom registry roots opened ids
    | some .opening => matchFrom registry roots (⟨id, []⟩ :: opened) ids
    | some .closing =>
      match opened with
      | [] => .error (.unmatchedAggregator id)
      | [o] => matchFrom registry (roots ++ [.mk o.start id o.children]) [] ids
      | o :: parent :: outer =>
        let parent := { parent with children := parent.children ++ [.mk o.start id o.children] }
        matchFrom registry roots (parent :: outer) ids

/-- The blocks of a topological order. Every fork opens a block, every aggregator closes the block
opened last. -/
def matchAll (registry : Registry) (order : List String) : Except CompileError (List Block) :=
  matchFrom registry [] [] order

/-- The registry and the wiring while blocks are folded. -/
structure Folding where
  registry : Registry
  wiring : Wiring

/-- A step of folding. What it did stays done when a later step fails. -/
abbrev Fold (α : Type) := ExceptT CompileError (StateM Folding) α

/-- Folds a block whose inner blocks have been folded. -/
def foldOne (start stop : String) : Fold Unit := do
  match ← (← get).wiring.regionsByKey start stop with
  | none => throw (.unmatchedAggregator stop)
  | some bodies =>
    let assign (node : Node) : Node := node.updateBranching fun b => b.assign bodies
    modify fun f => { f with registry := f.registry.modify start assign }
    let wiring ← (← get).wiring.compress start stop
    modify fun f => { f with wiring }

mutual

/-- Folds the blocks inside a block and then the block. -/
def fold : Block → Fold Unit
  | .mk start stop children => do
      foldAll children
      foldOne start stop

/-- Folds blocks one after the other. -/
def foldAll : List Block → Fold Unit
  | [] => pure ()
  | block :: rest => do
      fold block
      foldAll rest

end

end Block

end WorkflowCompiler
