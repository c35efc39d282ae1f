import WorkflowCompiler.Proofs.Compile.Brackets
import WorkflowCompiler.Proofs.Compile.Routes

/-!
# Blocks of a route

In the order of a route, every fork is closed by its own aggregator, so the blocks that are matched
are the blocks of the route.
-/
namespace WorkflowCompiler

open Block

namespace Route

mutual

/-- The blocks of a route. -/
def blocks : Route → List Block
  | .link _ => []
  | .step _ _ rest => rest.blocks
  | .block _ fork bodies stop rest => .mk fork.id stop.id (blocksAll bodies) :: rest.blocks

/-- The blocks of routes. -/
def blocksAll : List Route → List Block
  | [] => []
  | body :: bodies => body.blocks ++ blocksAll bodies

end

/-- The ends of the blocks of a route, in the order of folding. -/
def pairs (r : Route) : List (String × String) := pairsAll r.blocks

theorem pairsAll_blocksAll (bodies : List Route) :
    pairsAll (blocksAll bodies) = bodies.flatMap pairs := by
  induction bodies with
  | nil => simp [blocksAll, pairsAll]
  | cons body bodies ih => simp [blocksAll, pairsAll_append, ih, pairs]

@[simp] theorem pairs_link (edge : EditorEdge) : (link edge).pairs = [] := by
  simp [pairs, blocks, pairsAll]

@[simp] theorem pairs_step (edge : EditorEdge) (node : EditorNode) (rest : Route) :
    (step edge node rest).pairs = rest.pairs := by
  simp [pairs, blocks]

@[simp] theorem pairs_block (edge : EditorEdge) (fork : EditorNode) (bodies : List Route)
    (stop : EditorNode) (rest : Route) :
    (block edge fork bodies stop rest).pairs =
      bodies.flatMap pairs ++ (fork.id, stop.id) :: rest.pairs := by
  simp [pairs, blocks, pairsAll, Block.pairs, pairsAll_blocksAll]

end Route

namespace Registry

/-- These nodes of the editor are registered under their ids, with their kinds. -/
def Registers (r : Registry) (raws : List EditorNode) : Prop :=
  ∀ raw ∈ raws, ∃ node, r.get? raw.id = some node ∧ node.lowerKind = Text.lower raw.kind

end Registry

namespace Block

theorem bracket?_of_registers {r : Registry} {raws : List EditorNode} (h : r.Registers raws)
    (raw : EditorNode) (hraw : raw ∈ raws) :
    bracket? r raw.id =
      if (Node.ofEditor raw).isFork then some .opening
      else if (Node.ofEditor raw).isAggregator then some .closing
      else none := by
  obtain ⟨node, hnode, hkind⟩ := h raw hraw
  have hfork : node.isFork = (Node.ofEditor raw).isFork :=
    congrArg NodeKind.forkNames.contains hkind
  have haggregator : node.isAggregator = (Node.ofEditor raw).isAggregator :=
    congrArg NodeKind.aggregatorNames.contains hkind
  unfold bracket?
  rw [hnode, ← hfork, ← haggregator]
  rfl

/-- Blocks put behind those that are finished or inside of the one that was opened last. -/
def putBehind (blocks : List Block) : List Block → List Opened → List Block × List Opened
  | roots, [] => (roots ++ blocks, [])
  | roots, o :: outer => (roots, { o with children := o.children ++ blocks } :: outer)

theorem putBehind_nil (roots : List Block) (opened : List Opened) :
    putBehind [] roots opened = (roots, opened) := by
  cases opened <;> simp [putBehind]

theorem putBehind_append (blocks more roots : List Block) (opened : List Opened) :
    putBehind (blocks ++ more) roots opened =
      putBehind more (putBehind blocks roots opened).1 (putBehind blocks roots opened).2 := by
  cases opened <;> simp [putBehind]

end Block

namespace Route

/-- Matching takes in routes one after the other. -/
theorem matchFrom_bodies {registry : Registry} {bodies : List Route}
    (each : ∀ body ∈ bodies, ∀ (roots : List Block) (opened : List Opened) (ids : List String),
      Block.matchFrom registry roots opened (body.ids ++ ids) =
        Block.matchFrom registry (putBehind body.blocks roots opened).1
          (putBehind body.blocks roots opened).2 ids)
    (roots : List Block) (opened : List Opened) (ids : List String) :
    Block.matchFrom registry roots opened (bodies.flatMap Route.ids ++ ids) =
      Block.matchFrom registry (putBehind (blocksAll bodies) roots opened).1
        (putBehind (blocksAll bodies) roots opened).2 ids := by
  induction bodies generalizing roots opened with
  | nil =>
    rw [blocksAll, putBehind_nil]
    rfl
  | cons body more ih =>
    obtain ⟨first, others⟩ := List.forall_mem_cons.mp each
    rw [List.flatMap_cons, List.append_assoc, first, ih others, blocksAll, putBehind_append]

/-- Matching takes in a route as its blocks. -/
theorem Leads.matchFrom {registry : Registry} {source target : String} {r : Route}
    (h : r.Leads source target) (registers : registry.Registers r.nodes) (roots : List Block)
    (opened : List Opened) (ids : List String) :
    Block.matchFrom registry roots opened (r.ids ++ ids) =
      Block.matchFrom registry (putBehind r.blocks roots opened).1
        (putBehind r.blocks roots opened).2 ids := by
  induction h generalizing roots opened ids with
  | link => rw [blocks, putBehind_nil]; rfl
  | @step _ _ edge node rest _ _ notFork notMarker _ ih =>
    have hnode := bracket?_of_registers registers node List.mem_cons_self
    simp only [Node.isMarker, Bool.or_eq_false_iff] at notMarker
    obtain ⟨-, haggregator⟩ := notMarker
    rw [notFork, haggregator] at hnode
    have hrest := ih (fun raw hraw => registers raw (List.mem_cons_of_mem _ hraw)) roots opened ids
    rw [ids_step, List.cons_append, blocks, ← hrest, Block.matchFrom_plain hnode]
  | @block _ _ edge fork stop bodies rest _ _ isFork isAggregator _ _ _ _ _ _ _ ihBodies ih =>
    rw [nodes_block] at registers
    have hfork := bracket?_of_registers registers fork List.mem_cons_self
    have hstop := bracket?_of_registers registers stop (by simp)
    have hnotFork := Node.not_isFork_of_isAggregator isAggregator
    rw [isFork] at hfork
    rw [hnotFork, isAggregator] at hstop
    have hrest := ih fun raw hraw => registers raw (by simp [hraw])
    have hinside := matchFrom_bodies fun body hbody => ihBodies body hbody fun raw hraw =>
      registers raw (List.mem_cons_of_mem _ (List.mem_append_left _
        (List.mem_flatMap.mpr ⟨body, hbody, hraw⟩)))
    have hopen : Block.matchFrom registry roots opened
        ((Route.block edge fork bodies stop rest).ids ++ ids) =
        Block.matchFrom registry roots (⟨fork.id, []⟩ :: opened)
          (bodies.flatMap Route.ids ++ (stop.id :: (rest.ids ++ ids))) := by
      rw [ids_block, List.cons_append, List.append_assoc, List.cons_append,
        Block.matchFrom_opening hfork]
    have hclose : Block.matchFrom registry roots (⟨fork.id, blocksAll bodies⟩ :: opened)
        (stop.id :: (rest.ids ++ ids)) =
        Block.matchFrom registry
          (putBehind [.mk fork.id stop.id (blocksAll bodies)] roots opened).1
          (putBehind [.mk fork.id stop.id (blocksAll bodies)] roots opened).2 (rest.ids ++ ids) := by
      cases opened <;> simp [Block.matchFrom, hstop, putBehind]
    have hboth := putBehind_append [.mk fork.id stop.id (blocksAll bodies)] rest.blocks roots opened
    rw [List.singleton_append] at hboth
    rw [hopen, hinside, putBehind, List.nil_append, hclose, hrest, blocks, hboth]

/-- A start or an end is no bracket. -/
theorem bracket?_of_end {registry : Registry} {raws : List EditorNode}
    (registers : registry.Registers raws) (raw : EditorNode) (hraw : raw ∈ raws)
    (h : (Node.ofEditor raw).isStart = true ∨ (Node.ofEditor raw).isEnd = true) :
    bracket? registry raw.id = none := by
  have hname : (Node.ofEditor raw).lowerKind ∈ NodeKind.startNames ++ NodeKind.endNames := by
    simpa [Node.isStart, Node.isEnd] using h
  have all : ∀ name ∈ NodeKind.startNames ++ NodeKind.endNames,
      NodeKind.forkNames.contains name = false ∧
        NodeKind.aggregatorNames.contains name = false := by decide
  obtain ⟨hfork, haggregator⟩ := all _ hname
  rw [bracket?_of_registers registers raw hraw, Node.isFork, hfork, Node.isAggregator, haggregator]
  rfl

theorem Leads.matchAll {registry : Registry} {start stop : EditorNode} {r : Route}
    (h : r.Leads start.id stop.id) (registers : registry.Registers (start :: (r.nodes ++ [stop])))
    (isStart : (Node.ofEditor start).isStart = true) (isEnd : (Node.ofEditor stop).isEnd = true) :
    Block.matchAll registry (start.id :: (r.ids ++ [stop.id])) = .ok r.blocks := by
  have hstart := bracket?_of_end registers start (by simp) (.inl isStart)
  have hstop := bracket?_of_end registers stop (by simp) (.inr isEnd)
  have hroute : registry.Registers r.nodes := fun raw hraw => registers raw (by simp [hraw])
  have hinside := h.matchFrom hroute [] [] [stop.id]
  rw [putBehind, List.nil_append] at hinside
  have hend : Block.matchFrom registry r.blocks [] [stop.id] = .ok r.blocks := by
    simp [Block.matchFrom, hstop]
  have hopen : Block.matchFrom registry [] [] (start.id :: (r.ids ++ [stop.id])) =
      Block.matchFrom registry [] [] (r.ids ++ [stop.id]) := by
    simp [Block.matchFrom, hstart]
  rw [Block.matchAll, hopen, hinside, hend]

end Route

end WorkflowCompiler
