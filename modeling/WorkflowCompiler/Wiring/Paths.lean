import WorkflowCompiler.Entries
import WorkflowCompiler.Wiring.Order

/-!
# Paths between two nodes

The simple paths from one node to another, grouped by the key of the link they start with. The
groups of a fork and its aggregator are the bodies of the fork's cases.
-/
namespace WorkflowCompiler

namespace Wiring

/-- All paths from `at` to `stop` that avoid `visited` and have at most that many links, in the
order of slots. -/
def pathsFrom (w : Wiring) (stop : String) :
    Nat → (here : String) → (visited : List String) → List (List PlacedLink)
  | n, here, visited =>
    if here = stop then [[]]
    else
      match n with
      | 0 => []
      | n + 1 =>
        (w.outgoing here).flatMap fun p =>
          if visited.contains p.link.target then []
          else (pathsFrom w stop n p.link.target (p.link.target :: visited)).map (p :: ·)

/-- All simple paths from one node to another. -/
def paths (w : Wiring) (start stop : String) : List (List PlacedLink) :=
  w.pathsFrom stop w.nodes.length start [start]

/-- The key of the first link of a path. -/
def pathKey : List PlacedLink → String
  | [] => ""
  | p :: _ => p.link.data.key

/-- The nodes that a path passes through before it ends at `stop`. -/
def inner (stop : String) (path : List PlacedLink) : List String :=
  (path.map (·.link.target)).filter fun id => id ≠ stop

/-- Appends what is not yet there, in order. -/
def appendNew {α : Type} [DecidableEq α] (done : List α) (more : List α) : List α :=
  more.foldl (fun done x => if x ∈ done then done else done ++ [x]) done

/-- The error for a node that is not there. -/
def missing (id : String) : CompileError := .nodeNotFound id id

/-- Both ends of a region have to be there. -/
def checkEnds (w : Wiring) (start stop : String) : Except CompileError Unit :=
  if !w.contains start then .error (missing start)
  else if !w.contains stop then .error (missing stop)
  else .ok ()

/-- The inner nodes of all paths, under the keys of the paths, each once in order of first visit. -/
def group (stop : String) (paths : List (List PlacedLink)) : Entries (List String) :=
  paths.foldl
    (fun groups path =>
      let key := pathKey path
      groups.insert key (appendNew ((groups.get? key).getD []) (inner stop path)))
    []

/-- The nodes strictly between two nodes, by the key of the link that leads to them; nothing when
no path joins the two. -/
def regionsByKey (w : Wiring) (start stop : String) :
    Except CompileError (Option (Entries (List String))) := do
  w.checkEnds start stop
  match w.paths start stop with
  | [] => return none
  | paths => return some (group stop paths)

/-- Links `start` to a node, unless the two are already linked in this way; keys do not count. -/
def relink (start : String) (w : Wiring) (p : PlacedLink) : Wiring :=
  if (w.outgoing start).any fun q =>
      q.link.target = p.link.target && q.link.data.formatter = p.link.data.formatter &&
        q.link.data.targetHandle = p.link.data.targetHandle then w
  else w.place start p.link.target p.link.data

/-- Folds the region between two nodes into the first: all links and inner nodes of paths between
them go, the links that leave the last node leave the first one instead, and the last node goes. -/
def compress (w : Wiring) (start stop : String) : Except CompileError Wiring := do
  w.checkEnds start stop
  match w.paths start stop with
  | [] => .error (.unmatchedAggregator stop)
  | paths =>
    let slots := appendNew [] (paths.flatten.map (·.slot))
    let nodes := appendNew [] (paths.flatMap (inner stop))
    let w := slots.foldl removeLink w
    let w := nodes.foldl removeNode w
    let w := (w.outgoing stop).foldl (relink start) w
    return w.removeNode stop

end Wiring

end WorkflowCompiler
