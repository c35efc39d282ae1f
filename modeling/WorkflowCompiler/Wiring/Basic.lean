/-!
# Wirings

The directed graph of one graph level. Nodes are known by id and keep their order; links stand in
numbered slots. A removed link leaves its slot free, and the slot freed last is taken first by the
next link, so the order of slots is the order of links as long as none has been removed.
-/
namespace WorkflowCompiler

/-- What is known about a connection besides its ends. -/
structure LinkData where
  /-- The case of the fork that the connection leaves, nothing when it leaves no fork. -/
  key : String := ""
  formatter : Option String := none
  targetHandle : Option String := none
  deriving DecidableEq, Repr

/-- A connection between two nodes. -/
structure Link where
  source : String
  target : String
  data : LinkData := {}
  /-- A number that grows with each link that is added. -/
  stamp : Nat := 0
  deriving DecidableEq, Repr

/-- A directed graph with links in slots. -/
structure Wiring where
  nodes : List String := []
  slots : List (Option Link) := []
  /-- The free slots, the one freed last at the head. -/
  free : List Nat := []
  /-- The stamp of the next link. -/
  clock : Nat := 0
  deriving DecidableEq, Repr

/-- A link and the slot it stands in. -/
structure PlacedLink where
  slot : Nat
  link : Link
  deriving DecidableEq, Repr

namespace Wiring

/-- The links in the order of their slots. -/
def links (w : Wiring) : List Link := w.slots.filterMap id

/-- The links with their slots, in the order of the slots. -/
def placed (w : Wiring) : List PlacedLink :=
  w.slots.zipIdx.filterMap fun (link, slot) => link.map (PlacedLink.mk slot)

/-- Whether a node is there. -/
def contains (w : Wiring) (id : String) : Bool := w.nodes.contains id

/-- The number of nodes. -/
def nodeCount (w : Wiring) : Nat := w.nodes.length

/-- The number of links. -/
def linkCount (w : Wiring) : Nat := w.links.length

/-- Adds a node unless it is there. -/
def addNode (w : Wiring) (id : String) : Wiring :=
  if w.contains id then w else { w with nodes := w.nodes ++ [id] }

/-- Puts a link into the slot that was freed last, or into a new one. -/
def place (w : Wiring) (source target : String) (data : LinkData) : Wiring :=
  let link : Link := ⟨source, target, data, w.clock⟩
  match w.free with
  | slot :: free =>
      { w with slots := w.slots.set slot (some link), free, clock := w.clock + 1 }
  | [] => { w with slots := w.slots ++ [some link], clock := w.clock + 1 }

/-- Adds a link, and its ends unless they are there. -/
def addLink (w : Wiring) (source target : String) (data : LinkData) : Wiring :=
  ((w.addNode source).addNode target).place source target data

/-- Takes the link out of a slot, if there is one. -/
def removeLink (w : Wiring) (slot : Nat) : Wiring :=
  match w.slots[slot]? with
  | some (some _) => { w with slots := w.slots.set slot none, free := slot :: w.free }
  | _ => w

/-- The links that leave a node, in the order of their slots. -/
def outgoing (w : Wiring) (id : String) : List PlacedLink :=
  w.placed.filter fun p => p.link.source = id

/-- The links that enter a node, in the order of their slots. -/
def incoming (w : Wiring) (id : String) : List PlacedLink :=
  w.placed.filter fun p => p.link.target = id

/-- Links by stamp, the newest first. -/
def newestFirst (links : List PlacedLink) : List PlacedLink :=
  links.mergeSort fun a b => b.link.stamp ≤ a.link.stamp

/-- Removes a node and its links: those that leave it, then those that enter it, each time the
newest first. -/
def removeNode (w : Wiring) (id : String) : Wiring :=
  let w := (newestFirst (w.outgoing id)).foldl (fun w p => w.removeLink p.slot) w
  let w := (newestFirst (w.incoming id)).foldl (fun w p => w.removeLink p.slot) w
  { w with nodes := w.nodes.erase id }

end Wiring

end WorkflowCompiler
