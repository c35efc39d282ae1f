import WorkflowCompiler.Proofs.Compile.Agreeing
import WorkflowCompiler.Proofs.Node.Stripping

/-!
# Levels without the graphs embedded in their nodes

Once a level has been built, neither arranging it nor reading it off sees the graphs embedded in its
nodes: each step commutes with stripping them.
-/
namespace WorkflowCompiler

open Step

namespace Node

theorem stripped_bindInput (node : Node) (handle : Option String) (source : String) :
    (node.bindInput handle source).stripped = node.stripped.bindInput handle source := by
  have port : node.stripped.portFor? handle = node.portFor? handle := by
    cases handle <;> rfl
  unfold bindInput
  rw [port]
  cases node.portFor? handle <;> rfl

theorem stripped_updateBranching (node : Node) (f : Branching → Branching) :
    (node.updateBranching f).stripped = node.stripped.updateBranching f := by
  unfold updateBranching
  rw [show node.stripped.body = node.body from rfl]
  cases node.body.branching? <;> rfl

theorem leave_stripped (node : Node) (edge : EditorEdge) :
    Level.leave node.stripped edge =
      (Level.leave node edge).map fun made => (made.1.stripped, made.2) := by
  unfold Level.leave
  rw [show node.stripped.body = node.body from rfl]
  cases node.body.branching? with
  | none => rfl
  | some b =>
    show (b.connect node.id edge >>= _) = (b.connect node.id edge >>= _).map _
    cases b.connect node.id edge <;> rfl

end Node

namespace Session

/-- The session with all its registered nodes stripped. -/
def stripped (s : Session) : Session := { s with registry := s.registry.stripped }

@[simp] theorem node?_stripped (s : Session) (id : String) :
    s.stripped.node? id = (s.node? id).map Node.stripped := s.registry.get?_stripped id

theorem stripped_modifyNode (s : Session) (id : String) {f f' : Node → Node}
    (h : ∀ node, (f node).stripped = f' node.stripped) :
    (s.modifyNode id f).stripped = s.stripped.modifyNode id f' :=
  congrArg (fun registry => { s with registry }) (Entries.mapValues_modify _ _ id h)

theorem stripped_register (s : Session) (node : Node) :
    (s.register node).stripped = s.stripped.register node.stripped :=
  congrArg (fun registry => { s with registry }) (Entries.mapValues_insert _ _ node.id node)

theorem emit_stripped (s : Session) (node : Node) : s.stripped.emit node.stripped = s.emit node :=
  Registry.emit_stripped ..

theorem resourcesOf_stripped (s : Session) (node : Node) :
    s.stripped.resourcesOf node.stripped = s.resourcesOf node := Registry.resourcesOf_stripped ..

theorem checkResources_stripped (s : Session) (node : Node) :
    s.stripped.checkResources node.stripped = s.checkResources node :=
  checkResources_congr (s := s) fun x _ => s.registry.contains_stripped x

end Session

namespace Block

theorem bracket?_stripped (r : Registry) (id : String) : bracket? r.stripped id = bracket? r id := by
  unfold bracket?
  rw [Registry.get?_stripped]
  cases r.get? id <;> rfl

theorem matchAll_stripped (r : Registry) (order : List String) :
    matchAll r.stripped order = matchAll r order :=
  matchFrom_congr (fun id _ => bracket?_stripped r id) [] []

/-- The folding with all registered nodes stripped. -/
def Folding.stripped (f : Folding) : Folding := { f with registry := f.registry.stripped }

theorem blind_foldOne (start stop : String) : Blind Folding.stripped (foldOne start stop) := by
  intro f
  rw [run_foldOne, run_foldOne, show f.stripped.wiring = f.wiring from rfl]
  rcases f.wiring.regionsByKey start stop with e | _ | bodies
  · rfl
  · rfl
  have modified : f.stripped.registry.modify start
      (fun node => node.updateBranching fun b => b.assign bodies) =
      Registry.stripped (f.registry.modify start fun node =>
        node.updateBranching fun b => b.assign bodies) :=
    (Entries.mapValues_modify Node.stripped f.registry start
      fun node => node.stripped_updateBranching _).symm
  dsimp only
  rw [modified]
  cases f.wiring.compress start stop <;> rfl

theorem blind_foldAll (blocks : List Block) : Blind Folding.stripped (foldAll blocks) := by
  have each : ∀ p : String × String, Blind Folding.stripped (foldOne p.1 p.2) := fun p =>
    blind_foldOne p.1 p.2
  rw [foldAll_eq]
  exact blind_forM each _

end Block

namespace Level

theorem blind_connect (ids : List String) (w : Wiring) (edge : EditorEdge) :
    Blind Session.stripped (connect ids w edge) := by
  intro s
  have bound : ∀ t : Session,
      t.stripped.modifyNode edge.target (fun node => node.bindInput edge.targetHandle edge.source) =
        (t.modifyNode edge.target fun node => node.bindInput edge.targetHandle edge.source).stripped :=
    fun t => (t.stripped_modifyNode _ fun node => node.stripped_bindInput _ _).symm
  rw [run_connect, run_connect, Session.node?_stripped]
  rcases checkEnds ids edge with e | _
  · rfl
  rcases s.node? edge.source with _ | source
  · exact Prod.ext rfl (bound s)
  dsimp only [Option.map_some]
  rw [source.leave_stripped]
  rcases leave source edge with e | ⟨made, data⟩
  · rfl
  dsimp only [Except.map]
  rw [← s.stripped_modifyNode (f := fun _ => made) _ fun _ => rfl, bound]

theorem blind_connectAll (graph : EditorGraph) : Blind Session.stripped (connectAll graph) :=
  blind_foldlM (blind_connect _) _ _

theorem blind_foldBlocks (blocks : List Block) (w : Wiring) :
    Blind Session.stripped (foldBlocks blocks w) := by
  intro s
  have folded := Block.blind_foldAll blocks ⟨s.registry, w⟩
  unfold foldBlocks
  rw [show (⟨s.stripped.registry, w⟩ : Block.Folding) = Block.Folding.stripped ⟨s.registry, w⟩
    from rfl, folded]
  rfl

/-- Arranging a level does not see the graphs embedded in its nodes. -/
theorem blind_arrange (graph : EditorGraph) : Blind Session.stripped (arrange graph) := by
  unfold arrange
  refine (blind_connectAll graph).bind fun w => ?_
  refine (blind_lift _).bind fun order => ?_
  refine (blind_ofSession fun s => Block.matchAll_stripped s.registry order).bind fun blocks => ?_
  exact (blind_foldBlocks blocks w).bind fun w => blind_pure _

end Level

namespace Flattening

variable (s : Session)

theorem lookup_stripped (id requiredBy : String) :
    lookup s.stripped id requiredBy = (lookup s id requiredBy).map Node.stripped := by
  unfold lookup
  rw [s.node?_stripped]
  cases s.node? id <;> rfl

theorem flowEdge_stripped (id : String) (node : Node) (l : Link) :
    flowEdge s.stripped id node.stripped l = flowEdge s id node l := by
  unfold flowEdge
  rw [lookup_stripped, bind_map]
  rfl

theorem edgesInto_stripped (w : Wiring) (id : String) (node : Node) :
    edgesInto s.stripped w id node.stripped = edgesInto s w id node :=
  mapM_congr fun l _ => flowEdge_stripped s id node l

theorem entries_stripped (node : Node) : entries s.stripped node.stripped = entries s node := by
  unfold entries
  rw [s.emit_stripped]
  rfl

theorem emitNodes_stripped (w : Wiring) (order : List String) :
    emitNodes s.stripped w order = emitNodes s w order := by
  induction order with
  | nil => rfl
  | cons id order ih =>
    rw [emitNodes_cons, emitNodes_cons, lookup_stripped, bind_map, ih]
    simp only [entries_stripped, edgesInto_stripped]

theorem emitDeclared_stripped (r : Resources) (id : String) :
    emitDeclared s.stripped r id = emitDeclared s r id := by
  unfold emitDeclared
  rw [lookup_stripped, bind_map]
  simp only [s.emit_stripped]
  rfl

theorem emitUsed_stripped (r : Resources) (id : String) :
    emitUsed s.stripped r id = emitUsed s r id := by
  unfold emitUsed
  rw [lookup_stripped, bind_map]
  simp only [s.resourcesOf_stripped]

/-- Reading a level off does not show the graphs embedded in its nodes. -/
theorem flow_stripped (w : Wiring) (order declared : List String) :
    flow s.stripped w order declared = flow s w order declared := by
  unfold flow
  dsimp only
  rw [emitNodes_stripped, funext fun r => funext fun id => emitDeclared_stripped s r id,
    funext fun r => funext fun id => emitUsed_stripped s r id]

end Flattening

end WorkflowCompiler
