import WorkflowCompiler.Proofs.Compile.Phases
import WorkflowCompiler.Proofs.Compile.Places
import WorkflowCompiler.Proofs.Node.Nesting

/-!
# Moments of a compile

The sessions that a compile passes through, those of nested levels and those left behind by failures
included. In each of them recursion into branches ends: branches hold registered nodes, and no node
nests in itself.
-/
namespace WorkflowCompiler

open Step

namespace Level

/-- The session in which the building of a resource or node of a level begins. -/
def Begins (nested : NestedCompiler) (graph : EditorGraph) (s : Session) (raw : EditorNode)
    (t : Session) : Prop :=
  BeginsResource nested graph s raw t ∨ BeginsNode nested graph s raw t

/-- Folds the pairs of blocks one after the other in the registry of a session. -/
def foldPairs (pairs : List (String × String)) (w : Wiring) (s : Session) : Session :=
  { s with
    registry :=
      ((pairs.forM fun p => Block.foldOne p.1 p.2 : Block.Fold Unit) ⟨s.registry, w⟩).2.registry }

/-- `Passes room graph s t`: a compile of `graph` that starts in `s`, with room for that many
nested graphs, passes through `t`. -/
inductive Passes : Nat → EditorGraph → Session → Session → Prop
  /-- Some of the resources have been built, the last perhaps in vain. -/
  | resources {room : Nat} {graph : EditorGraph} {s : Session} {done : List EditorNode}
      (first : done <+: graph.resources) :
      Passes room graph s ((done.mapM (buildResource (nestedCompiler room))) s).2
  /-- Some of the resources have been checked. -/
  | checks {room : Nat} {graph : EditorGraph} {s u : Session} {built : List Node}
      {done : List (EditorNode × Node)}
      (resources : (graph.resources.mapM (buildResource (nestedCompiler room))) s = (.ok built, u))
      (first : done <+: graph.resources.zip built) :
      Passes room graph s ((done.mapM fun p => checkResource p.1 p.2 : Build (List Node)) u).2
  /-- Some of the nodes have been built, the last perhaps in vain. -/
  | nodes {room : Nat} {graph : EditorGraph} {s u : Session} {resources : List Node}
      {done : List EditorNode}
      (resourced : Resourced (nestedCompiler room) graph s resources u)
      (first : done <+: graph.nodes) :
      Passes room graph s ((done.mapM (buildNode (nestedCompiler room))) u).2
  /-- A resource or node has been built, perhaps in vain, and nothing has come of it yet. -/
  | built {room : Nat} {graph : EditorGraph} {s u : Session} {raw : EditorNode}
      (begins : Begins (nestedCompiler room) graph s raw u) :
      Passes room graph s (Node.build (nestedCompiler room) raw u).2
  /-- The graph of a resource or node is being compiled. -/
  | inside {room : Nat} {graph inner : EditorGraph} {s u v t : Session} {raw : EditorNode}
      (begins : Begins (nestedCompiler (room + 1)) graph s raw u) (enters : u.Enters raw inner v)
      (passes : Passes room inner v t) : Passes (room + 1) graph s t
  /-- Some of what has been built has been registered once more. -/
  | registered {room : Nat} {graph : EditorGraph} {s u v : Session} {resources nodes done : List Node}
      (resourced : Resourced (nestedCompiler room) graph s resources u)
      (built : (graph.nodes.mapM (buildNode (nestedCompiler room))) u = (.ok nodes, v))
      (first : done <+: resources ++ nodes) : Passes room graph s (v.registerAll done)
  /-- Some of the connections have been scanned. -/
  | edges {room : Nat} {graph : EditorGraph} {s u : Session} {done : List EditorEdge}
      (built : buildAll (nestedCompiler room) graph s = (.ok (), u))
      (first : done <+: graph.edges) :
      Passes room graph s
        ((done.foldlM (connect (graph.nodes.map EditorNode.id))
          ((graph.nodes.map EditorNode.id).foldl Wiring.addNode {})) u).2
  /-- A connection has been noted at its source and not at its target yet. -/
  | noted {room : Nat} {graph : EditorGraph} {s u v : Session} {done : List EditorEdge}
      {edge : EditorEdge} {w : Wiring} {source made : Node} {data : LinkData}
      (built : buildAll (nestedCompiler room) graph s = (.ok (), u))
      (first : done ++ [edge] <+: graph.edges)
      (run : (done.foldlM (connect (graph.nodes.map EditorNode.id))
        ((graph.nodes.map EditorNode.id).foldl Wiring.addNode {})) u = (.ok w, v))
      (found : v.node? edge.source = some source) (left : leave source edge = .ok (made, data)) :
      Passes room graph s (v.modifyNode edge.source fun _ => made)
  /-- Some of the blocks have been folded. -/
  | folds {room : Nat} {graph : EditorGraph} {s u v : Session} {w : Wiring} {order : List String}
      {blocks : List Block} {done : List (String × String)}
      (built : buildAll (nestedCompiler room) graph s = (.ok (), u))
      (connected : connectAll graph u = (.ok w, v)) (sorted : w.topologicalOrder = .ok order)
      (matched : Block.matchAll v.registry order = .ok blocks)
      (first : done <+: Block.pairsAll blocks) : Passes room graph s (foldPairs done w v)

section Ends

variable {room : Nat} {graph : EditorGraph} {s : Session}

theorem passes_buildAll : Passes room graph s (buildAll (nestedCompiler room) graph s).2 := by
  unfold buildAll
  have resources : Passes room graph s
      ((graph.resources.mapM (buildResource (nestedCompiler room))) s).2 :=
    .resources (List.prefix_refl graph.resources)
  rw [run_bind]
  rcases hresources : (graph.resources.mapM (buildResource (nestedCompiler room))) s with
    ⟨e | built, t⟩
  · rwa [hresources] at resources
  have checks := Passes.checks hresources (List.prefix_refl _)
  dsimp only
  rw [run_bind]
  rcases hchecks : ((graph.resources.zip built).mapM fun p => checkResource p.1 p.2 :
    Build (List Node)) t with ⟨e | resources, u⟩
  · rw [hchecks] at checks ⊢
    exact checks
  have resourced : Resourced (nestedCompiler room) graph s resources u :=
    ⟨built, t, hresources, hchecks⟩
  have nodes := Passes.nodes resourced (List.prefix_refl _)
  rw [hchecks]
  dsimp only
  rw [run_bind]
  rcases hnodes : (graph.nodes.mapM (buildNode (nestedCompiler room))) u with ⟨e | nodes, v⟩
  · rwa [hnodes] at nodes
  have registered := Passes.registered resourced hnodes (List.prefix_refl _)
  dsimp only
  rw [Session.run_registers]
  unfold Session.registerAll at registered ⊢
  rwa [List.foldl_append] at registered

theorem passes_connectAll {t : Session}
    (built : buildAll (nestedCompiler room) graph s = (.ok (), t)) :
    Passes room graph s (connectAll graph t).2 :=
  .edges built (List.prefix_refl graph.edges)

/-- A compile passes through the session that it ends with, however it ends. -/
theorem passes_compile : Passes room graph s (compile (nestedCompiler room) graph s).2 := by
  have building : Passes room graph s (buildAll (nestedCompiler room) graph s).2 := passes_buildAll
  unfold compile
  rw [run_bind]
  rcases hbuild : buildAll (nestedCompiler room) graph s with ⟨e | _, t⟩
  · rwa [hbuild] at building
  have connecting := passes_connectAll hbuild
  dsimp only
  rw [run_bind]
  rcases hconnect : connectAll graph t with ⟨e | w, u⟩
  · rwa [hconnect] at connecting
  rw [hconnect] at connecting
  dsimp only
  rw [run_bind, run_lift]
  rcases hsort : w.topologicalOrder with e | order
  · exact connecting
  dsimp only
  rw [run_bind, run_ofSession]
  rcases hmatch : Block.matchAll u.registry order with e | blocks
  · exact connecting
  have folding := Passes.folds hbuild hconnect hsort hmatch (List.prefix_refl _)
  unfold foldPairs at folding
  rw [← Block.foldAll_eq] at folding
  dsimp only
  rw [run_bind]
  unfold foldBlocks
  rcases hfold : Block.foldAll blocks ⟨u.registry, w⟩ with ⟨e | _, g⟩
  · rwa [hfold] at folding
  · rw [hfold] at folding
    exact folding

end Ends

section Reaches

open Session

variable {room : Nat} {graph : EditorGraph} {s t : Session} {raw : EditorNode}

theorem grows_of_ensures {α : Type} {m : Build α} {done : α → Session → Prop}
    {failed : CompileError → Session → Prop} (h : Ensures m s done failed)
    (ok : ∀ a t, done a t → s.Grows t) (error : ∀ e t, failed e t → s.Grows t) : s.Grows (m s).2 :=
  keeps_iff.mp (h.mono ok error)

theorem Begins.grows (h : Begins (nestedCompiler room) graph s raw t) : s.Grows t := by
  rcases h with h | h
  · exact h.grows (behaves_nestedCompiler room)
  · exact (h.settles (behaves_nestedCompiler room)).toGrows

/-- Building a resource or node leaves all that was there, whatever comes of it. -/
theorem grows_build (room : Nat) (raw : EditorNode) (s : Session) :
    s.Grows (Node.build (nestedCompiler room) raw s).2 :=
  grows_of_ensures (Node.behaves_build (behaves_nestedCompiler room) raw s)
    (fun _ _ h => h.toGrows) fun _ _ h => h.grows

/-- Noting a connection at its source changes nothing but what is noted. -/
theorem reconnects_noted {edge : EditorEdge} {source made : Node} {data : LinkData}
    (found : s.node? edge.source = some source) (left : leave source edge = .ok (made, data)) :
    s.Reconnects (s.modifyNode edge.source fun _ => made) := by
  refine reconnects_modifyNode fun node hn => ?_
  obtain rfl : source = node := Option.some.inj (found.symm.trans hn)
  exact leave_keeps left

theorem settles_foldPairs {w : Wiring} {u v : Session} {order : List String} {blocks : List Block}
    {done : List (String × String)} (built : buildAll (nestedCompiler room) graph s = (.ok (), u))
    (connected : connectAll graph u = (.ok w, v)) (sorted : w.topologicalOrder = .ok order)
    (matched : Block.matchAll v.registry order = .ok blocks) (first : done <+: Block.pairsAll blocks) :
    s.Settles (foldPairs done w v) := by
  obtain ⟨hsettles, holds, -⟩ :=
    (ensures_buildAll (behaves_nestedCompiler room) graph s).of_ok built
  obtain ⟨re, rfl, scanned⟩ := (ensures_connectAll graph u).of_ok connected
  have fresh := fresh_of_holds holds re
  have valid := valid_wiring u.registry graph
  have isOrder := valid.isOrder_of_topologicalOrder sorted
  have mem : ∀ id ∈ (wiring u.registry graph).nodes, id ∈ graph.nodes.map EditorNode.id :=
    fun id => (Wiring.mem_nodes_wired (ends_of_edges scanned.ends)).mp
  have foldable := (Block.foldable_of_matchAll valid isOrder matched).of_append first
  have run := Block.ensures_foldPairs isOrder foldable
    (fun id hid => fresh.present id (mem id hid)) (fun id hid => fresh.members id (mem id hid))
  have kept : Keeps (done.forM fun p => Block.foldOne p.1 p.2 : Block.Fold Unit)
      ⟨v.registry, wiring u.registry graph⟩ fun g : Block.Folding =>
        Block.KeepsRanks order v.registry g.registry :=
    run.mono (fun _ _ h => h) fun _ _ h => h.1
  have keeps := keeps_iff.mp kept
  refine (hsettles.trans re.settles).trans (settles_of_same rfl rfl rfl rfl keeps.same ?_)
  rintro ⟨rank, ranked⟩
  exact ⟨_, keeps.ranked rank ranked⟩

/-- In every session that a compile passes through, there is what has been there in the session that
it starts in, and graphs have been entered as they may be. -/
theorem Passes.reaches (h : Passes room graph s t) : s.Reaches t := by
  induction h with
  | resources _ =>
    exact (grows_of_ensures (ensures_buildResources (behaves_nestedCompiler _) _ _)
      (fun _ _ h => h.2.1) fun _ _ h => h.grows).reaches
  | @checks _ _ _ u _ done resources first =>
    obtain ⟨hbuilt, hgrows, -⟩ :=
      (ensures_buildResources (behaves_nestedCompiler _) _ _).of_ok resources
    have each : ∀ p ∈ done, ∀ v, u.Grows v → Keeps (checkResource p.1 p.2) v u.Grows := by
      intro p hp v hv
      have hfrom : Node.BuiltFrom p.1 p.2 := List.forall₂_zip hbuilt (first.subset hp)
      exact (ensures_checkResource hfrom v).mono (fun _ _ h => hv.trans h.2.1)
        fun _ _ h => hv.trans h.grows
    exact (hgrows.trans (keeps_iff.mp (keeps_mapM each (.refl _)))).reaches
  | nodes resourced _ =>
    have between := (resourced.settles (behaves_nestedCompiler _)).toGrows
    exact (between.trans (grows_of_ensures (ensures_buildNodes (behaves_nestedCompiler _) _ _)
      (fun _ _ h => h.2.1.toGrows) fun _ _ h => h.grows)).reaches
  | built begins => exact (begins.grows.trans (grows_build _ _ _)).reaches
  | inside begins enters _ ih => exact (begins.grows.reaches.trans enters.reaches).trans ih
  | registered resourced built first =>
    have between := resourced.settles (behaves_nestedCompiler _)
    obtain ⟨hbuilt, hsettles, -⟩ :=
      (ensures_buildNodes (behaves_nestedCompiler _) _ _).of_ok built
    refine ((between.trans hsettles).toGrows.trans (grows_registerAll fun node hn => ?_)).reaches
    rcases List.mem_append.mp (first.subset hn) with hn | hn
    · exact fresh_of_builtFrom (resourced.builtFrom (behaves_nestedCompiler _)) node hn
    · exact fresh_of_builtFrom hbuilt node hn
  | edges built _ =>
    have before := ((ensures_buildAll (behaves_nestedCompiler _) _ _).of_ok built).1.toGrows
    exact (before.trans (grows_of_ensures (ensures_connectEdges _ _ _ _)
      (fun _ _ h => h.1.settles.toGrows) fun _ _ h => h.1.settles.toGrows)).reaches
  | noted built _ run found left =>
    have before := ((ensures_buildAll (behaves_nestedCompiler _) _ _).of_ok built).1
    have scanned := before.trans ((ensures_connectEdges _ _ _ _).of_ok run).1.settles
    exact (scanned.trans (reconnects_noted found left).settles).toGrows.reaches
  | folds built connected sorted matched first =>
    exact (settles_foldPairs built connected sorted matched first).toGrows.reaches

/-- Every session that a compile passes through is as sound as the one that it starts in. -/
theorem Passes.sound (h : Passes room graph s t) (sound : s.Sound) : t.Sound := h.reaches.sound sound

end Reaches

end Level

/-- Recursion into the branches of registered nodes ends, with whatever bound, and misses no
node. -/
structure Session.BranchesEnd (t : Session) : Prop where
  registered : ∀ fork id, t.registry.Nests fork id → t.registry.contains id = true
  acyclic : ∀ id, ¬ Relation.TransGen t.registry.Nests id id
  wellFounded : WellFounded fun id fork => t.registry.Nests fork id
  unbounded : ∀ id node depth, t.node? id = some node → t.registry.length ≤ depth →
    t.registry.emitWithin t.options.defaultEnableBackflow depth node = t.emit node ∧
      t.registry.rootsWithin depth node = t.registry.roots node
  emit : ∀ id node e, t.node? id = some node → t.emit node = .error e →
    ∃ document requestedBy, e = .resourceNotFound document requestedBy
  branch : ∀ id node b key e, t.node? id = some node → node.body.branching? = some b →
    t.registry.emitBranch t.emit node.id (b.branch key) = .error e →
    ∃ document requestedBy, e = .resourceNotFound document requestedBy
  roots : ∀ id node, t.node? id = some node → ∃ ids, t.registry.roots node = .ok ids

theorem Session.Sound.branchesEnd {t : Session} (h : t.Sound) : t.BranchesEnd := by
  obtain ⟨rank, ranked⟩ := h.registry.ranked
  refine ⟨?_, ranked.acyclic, ranked.wellFounded, ?_, ?_, ?_, ?_⟩
  · rintro fork id ⟨node, hn, hm⟩
    exact (ranked fork node hn id hm).1
  · intro id node depth hn enough
    exact ⟨ranked.emitWithin_eq_emit _ hn enough, ranked.rootsWithin_eq_roots hn enough⟩
  · exact fun id node e hn he => ranked.emit_error _ hn e he
  · exact fun id node b key e hn hb he => ranked.emitBranch_error _ hn hb he
  · exact fun id node hn => ranked.roots_succeeds hn

/-- At every moment of a compile, in nested levels and after failures too, branches hold registered
nodes and nest in no node of their own, so recursion into them ends. -/
theorem EditorGraph.branches_end (graph : EditorGraph) (collaborators : Collaborators)
    (options : Options) {t : Session}
    (h : Level.Passes options.maxDepth graph { collaborators, options } t) : t.BranchesEnd :=
  (h.sound (Session.sound_fresh collaborators options)).branchesEnd

/-- A compile of a graph with a fork passes through a session in which the fork has a branch. -/
theorem EditorGraph.branches_end_oneFork :
    ∃ t, Level.Passes 16 Level.oneFork {} t ∧ t.registry.Nests "f" "a" ∧ t.BranchesEnd := by
  have nests : ∃ node ∈ (Level.compile (Level.nestedCompiler 16) Level.oneFork {}).2.node? "f",
      "a" ∈ node.members := by decide +kernel
  have passes : Level.Passes 16 Level.oneFork {} _ := Level.passes_compile
  exact ⟨_, passes, nests, EditorGraph.branches_end Level.oneFork {} {} passes⟩

end WorkflowCompiler
