import WorkflowCompiler.Diagnostics
import WorkflowCompiler.Wiring.Basic

/-!
# Topological order

Nodes are released once all links into them come from nodes that are already in order. Of several
released nodes the one released last, and of those released together the one in front, comes next.
A wiring with a circle of links has no such order; whether there is one is decided on its own, from
the links alone.
-/
namespace WorkflowCompiler

namespace Wiring

/-- The state of a sort. -/
structure SortState where
  /-- The number of links into each node that are still to be followed. -/
  pending : List (String × Nat)
  /-- The released nodes, the next one at the head. -/
  ready : List String
  /-- The nodes in order so far. -/
  order : List String := []
  deriving Repr

namespace SortState

/-- Counts one link into `id` as followed; tells whether that was the last one. -/
def follow : List (String × Nat) → String → List (String × Nat) × Bool
  | [], _ => ([], false)
  | (node, n) :: rest, id =>
      if node = id then ((node, n - 1) :: rest, n - 1 = 0)
      else
        let (rest, last) := follow rest id
        ((node, n) :: rest, last)

/-- Follows links into these nodes one after the other and collects the nodes released. -/
def followAll : List (String × Nat) → List String → List (String × Nat) × List String
  | pending, [] => (pending, [])
  | pending, id :: ids =>
      let (pending, last) := follow pending id
      let (pending, released) := followAll pending ids
      (pending, if last then id :: released else released)

/-- Puts the next released node in order. -/
def step (w : Wiring) (s : SortState) : SortState :=
  match s.ready with
  | [] => s
  | id :: ready =>
      let (pending, released) := followAll s.pending ((w.outgoing id).map (·.link.target))
      ⟨pending, released ++ ready, s.order ++ [id]⟩

/-- Takes that many steps. -/
def run (w : Wiring) : Nat → SortState → SortState
  | 0, s => s
  | n + 1, s => run w n (s.step w)

end SortState

/-- The state before the first step: the nodes that no link enters are released. -/
def sortStart (w : Wiring) : SortState :=
  let pending := w.nodes.map fun id => (id, (w.incoming id).length)
  ⟨pending, (pending.filter fun p => p.2 = 0).map Prod.fst, []⟩

/-- The nodes in the order in which a sort releases them; nodes on or behind a cycle are missing. -/
def released (w : Wiring) : List String :=
  (SortState.run w w.nodes.length w.sortStart).order

/-- A topological order of the nodes, or the nodes that a cycle keeps from being sorted. -/
def topologicalOrder (w : Wiring) : Except CompileError (List String) :=
  let order := w.released
  if order.length = w.nodes.length then .ok order
  else .error (.cyclicGraph (w.nodes.filter fun id => !order.contains id))

/-- The links behind which some link goes on. -/
def continued (links : List Link) : List Link :=
  links.filter fun l => links.any fun next => next.source = l.target

/-- The links that are left once dead ends have been taken away as long as there are any: those
from which one can go on for ever. -/
def endless (links : List Link) : List Link :=
  if (continued links).length < links.length then endless (continued links) else links
termination_by links.length

/-- Whether some links lead in a circle. -/
def isCyclic (w : Wiring) : Bool := !(endless w.links).isEmpty

end Wiring

end WorkflowCompiler
