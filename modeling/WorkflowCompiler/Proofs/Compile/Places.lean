import WorkflowCompiler.Proofs.Compile.Phases
import WorkflowCompiler.Proofs.Compile.Recovery
import WorkflowCompiler.Proofs.Node.Kinds

/-!
# Where nodes go

A fold takes exactly those nodes out of the wiring that it makes members of the branches of its
fork, and the aggregator. What leaves a fork carries the key of a declared case until the fork is
folded, so no body is dropped.
-/
namespace WorkflowCompiler

open Step

namespace Registry

/-- A connection carries the key of a declared case if it leaves a fork. -/
def Declares (r : Registry) (a : Arrow) : Prop :=
  ∀ node b, r.get? a.source = some node → node.body.branching? = some b →
    a.data.key ∈ b.cases.map ForkCase.key

/-- The keys of the cases that a node declares, if it is a fork, are distinct. -/
def DistinctKeys (node : Node) : Prop :=
  ∀ b, node.body.branching? = some b → (b.cases.map ForkCase.key).Nodup

instance (node : Node) : Decidable (DistinctKeys node) :=
  inferInstanceAs
    (Decidable (∀ b ∈ node.body.branching?, (b.cases.map ForkCase.key).Nodup))

theorem Same.declares {r r' : Registry} (h : Same r r') {a : Arrow} (d : r.Declares a) :
    r'.Declares a := by
  intro node b hn hb
  obtain ⟨old, hold, hbare⟩ := h.exists_of_get? hn
  obtain ⟨c, hc, hcases⟩ := Node.branching_of_bare hbare hb
  rw [← hcases]
  exact d old c hold hc

theorem distinctKeys_of_bare {a b : Node} (h : a.bare = b.bare) (d : DistinctKeys a) :
    DistinctKeys b := by
  intro c hc
  obtain ⟨e, he, hcases⟩ := Node.branching_of_bare h hc
  rw [← hcases]
  exact d e he

end Registry

/-- Whether a fork accounts for a node between it and its aggregator: the node is in the branch of a
declared case, unless the fork is a stand-in that has no branches. -/
def Node.TakesIn (fork : Node) (id : String) : Prop :=
  ∀ b, fork.body.branching? = some b → ∃ key ∈ b.cases.map ForkCase.key, id ∈ b.branch key

theorem Node.TakesIn.mem_members {fork : Node} {id : String} (h : fork.TakesIn id)
    (branches : fork.body.branching?.isSome = true) : id ∈ fork.members := by
  obtain ⟨b, hb⟩ := Option.isSome_iff_exists.mp branches
  obtain ⟨key, -, hid⟩ := h b hb
  exact Node.mem_members_of_branch hb hid

namespace Level

/-- After a scan, all links of a level that leave a fork carry keys of its declared cases. -/
theorem declares_of_scanned {graph : EditorGraph} {s : Session} (holds : s.Holds graph.nodes)
    (scanned : Scanned graph s) {edge : EditorEdge} (h : edge ∈ graph.edges) :
    s.registry.Declares (arrow s.registry edge) := by
  intro node b hn hb
  have hn : s.registry.get? edge.source = some node := hn
  obtain ⟨raw, hraw, hid⟩ := List.mem_map.mp (scanned.ends edge h).1
  obtain ⟨made, -, -, built, hbuilt, from_⟩ := holds raw hraw
  rw [hid] at hbuilt
  obtain rfl : built = node := Option.some.inj (hbuilt.symm.trans hn)
  have hcases := from_.branching b hb
  have hport := scanned.leaves edge h built hn (by simp [hb])
  have hkey : (arrow s.registry edge).data.key = (b.keyOf? (Branching.portOf edge)).getD "" := by
    unfold arrow linkData
    simp [hn, hb]
  rw [hkey]
  refine Branching.keyOf?_mem ?_
  unfold Node.ports at hport
  rw [hb, hcases, Option.map_some, Option.getD_some] at hport
  rw [hcases]
  exact Branching.mem_ports_ofCases.mp hport

end Level

namespace Block

/-- A fork takes in what a fold takes out of the wiring between it and its aggregator. -/
theorem takesIn_of_between {f : Folding} {start stop id : String} {node : Node}
    (hn : f.registry.get? start = some node) (distinct : Registry.DistinctKeys node)
    (declared : ∀ a ∈ f.wiring.arrows, a.source = start → f.registry.Declares a)
    (h : id ∈ f.wiring.between start stop) :
    ∃ made, (assigned f start stop).get? start = some made ∧ made.TakesIn id := by
  obtain ⟨hne, path, hpath, p, hp, rfl⟩ := Wiring.mem_between.mp h
  have walk := (Wiring.walk_of_mem_pathsFrom hpath).1
  -- the first link of the path leaves the fork by a declared case
  obtain ⟨first, rest, rfl⟩ := List.exists_cons_of_ne_nil (List.ne_nil_of_mem hp)
  have hfirst : first ∈ f.wiring.placed ∧ first.link.source = start := by
    cases walk with
    | along placed _ _ => exact ⟨placed, rfl⟩
  have hmine : (first :: rest) ∈
      Wiring.keyed (f.wiring.paths start stop) first.link.data.key :=
    List.mem_filter.mpr ⟨hpath, by simp [Wiring.pathKey]⟩
  have hin : p.link.target ∈ Wiring.inner stop (first :: rest) := by
    unfold Wiring.inner
    exact List.mem_filter.mpr ⟨List.mem_map_of_mem hp, by simpa using hne⟩
  refine ⟨node.updateBranching fun b => b.assign
    (Wiring.group stop (f.wiring.paths start stop)), ?_, fun c hc => ?_⟩
  · unfold assigned
    rw [Entries.get?_modify, if_pos rfl, hn]
    rfl
  · obtain ⟨b, hb⟩ : ∃ b, node.body.branching? = some b := by
      unfold Node.updateBranching at hc
      split at hc
      · next b hb => exact ⟨b, hb⟩
      · exact ⟨c, hc⟩
    obtain rfl : b.assign (Wiring.group stop (f.wiring.paths start stop)) = c := by
      unfold Node.updateBranching at hc
      simpa [hb] using hc
    have hkey : first.link.data.key ∈ b.cases.map ForkCase.key :=
      declared first.arrow (List.mem_map_of_mem hfirst.1) hfirst.2 node b
        (by rw [← hn, ← hfirst.2]; rfl) hb
    refine ⟨first.link.data.key, hkey, ?_⟩
    rw [Branching.branch_assign (distinct b hb) _ hkey, Wiring.get?_group,
      if_neg (List.ne_nil_of_mem hmine)]
    simp only [Option.getD_some, Wiring.mem_appendNew, List.not_mem_nil, false_or]
    exact List.mem_flatMap.mpr ⟨_, hmine, hin⟩

/-- Where the nodes of a level are when these pairs have been folded: still in the wiring, gone as
the last node of a pair, or taken in by the first node of a pair. -/
structure Placement (order : List String) (r : Registry) (done : List (String × String))
    (f : Folding) : Prop where
  same : r.Same f.registry
  sub : f.wiring.nodes ⊆ order
  somewhere : ∀ id ∈ order, id ∈ f.wiring.nodes ∨ id ∈ done.map Prod.snd ∨
    ∃ p ∈ done, order.idxOf p.1 < order.idxOf id ∧
      ∃ node, f.registry.get? p.1 = some node ∧ node.TakesIn id
  inside : ∀ fork ∈ order, ∀ node, f.registry.get? fork = some node → ∀ m ∈ node.members,
    m ∉ f.wiring.nodes ∧ m ∈ order ∧ order.idxOf fork < order.idxOf m
  declared : ∀ a ∈ f.wiring.arrows, a.source ∈ done.map Prod.fst ∨ r.Declares a

section Next

variable {order : List String} {r : Registry} {done rest : List (String × String)}
  {p : String × String} {f f' : Folding} (h : Placement order r done f)
  (foldable : Foldable order.idxOf (p :: rest) f.wiring)

include h foldable

/-- The fork of a pair takes in what lies between it and its aggregator. -/
theorem Placement.takesIn (fresh : p.1 ∉ done.map Prod.fst) {node : Node}
    (hn : r.get? p.1 = some node) (distinct : Registry.DistinctKeys node) {id : String}
    (hid : id ∈ f.wiring.between p.1 p.2) :
    order.idxOf p.1 < order.idxOf id ∧
      ∃ made, (assigned f p.1 p.2).get? p.1 = some made ∧ made.TakesIn id := by
  obtain ⟨now, hnow, hbare⟩ := h.same.exists_get? hn
  have hdeclared : ∀ a ∈ f.wiring.arrows, a.source = p.1 → f.registry.Declares a := by
    intro a ha hs
    rcases h.declared a ha with hold | hold
    · exact absurd (hs ▸ hold) fresh
    · exact h.same.declares hold
  exact ⟨(Wiring.position_of_mem_between foldable.forward hid).1,
    takesIn_of_between hnow (Registry.distinctKeys_of_bare hbare.symm distinct) hdeclared hid⟩

variable (hfold : f.wiring.compress p.1 p.2 = .ok f'.wiring)
  (hreg : f'.registry = assigned f p.1 p.2)

include hfold hreg

/-- New members of a branch leave the wiring with the fold. -/
theorem Placement.inside_next {fork : String} (hfork : fork ∈ order) {made : Node}
    (hmade : f'.registry.get? fork = some made) {m : String} (hm : m ∈ made.members) :
    m ∉ f'.wiring.nodes ∧ m ∈ order ∧ order.idxOf fork < order.idxOf m := by
  have folds := foldable.valid.folds hfold
  obtain ⟨old, hold, hmembers⟩ := mem_members_assigned (hreg ▸ hmade)
  rcases hmembers m hm with hin | ⟨rfl, hin⟩
  · obtain ⟨hout, hrest⟩ := h.inside fork hfork old hold m hin
    exact ⟨fun hm => hout (folds.mem_nodes.mp hm).1, hrest⟩
  · exact ⟨fun hm => (folds.mem_nodes.mp hm).2.2 hin,
      h.sub (foldable.valid.mem_of_mem_between hin),
      (Wiring.position_of_mem_between foldable.forward hin).1⟩

/-- A fold of a pair whose fork has not been folded yet. -/
theorem Placement.next (fresh : p.1 ∉ done.map Prod.fst) {node : Node}
    (hn : r.get? p.1 = some node) (distinct : Registry.DistinctKeys node) :
    Placement order r (done ++ [p]) f' := by
  have folds := foldable.valid.folds hfold
  refine ⟨hreg ▸ h.same.trans (same_assigned f p.1 p.2), ?_, ?_, ?_, ?_⟩
  · exact fun id hid => h.sub (folds.mem_nodes.mp hid).1
  · intro id hid
    rcases h.somewhere id hid with hin | hin | ⟨q, hq, hlt, made, hmade, hin⟩
    · by_cases hstop : id = p.2
      · exact .inr (.inl (by simp [hstop]))
      by_cases hbetween : id ∈ f.wiring.between p.1 p.2
      · obtain ⟨hlt, made, hmade, hin⟩ := h.takesIn foldable fresh hn distinct hbetween
        exact .inr (.inr ⟨p, by simp, hlt, made, hreg ▸ hmade, hin⟩)
      · exact .inl (folds.mem_nodes.mpr ⟨hin, hstop, hbetween⟩)
    · exact .inr (.inl (by rw [List.map_append]; exact List.mem_append_left _ hin))
    · -- the forks of earlier pairs stay as they are
      have hne : q.1 ≠ p.1 := fun he => fresh (he ▸ List.mem_map_of_mem hq)
      refine .inr (.inr ⟨q, List.mem_append_left _ hq, hlt, made, ?_, hin⟩)
      rw [hreg]
      unfold assigned
      rw [Entries.get?_modify, if_neg hne]
      exact hmade
  · exact fun fork hfork made hmade m hm => h.inside_next foldable hfold hreg hfork hmade hm
  · intro a ha
    rw [List.map_append]
    rcases folds.mem_arrows ha with hold | ⟨q, -, rfl⟩
    · exact (h.declared a hold).imp_left (List.mem_append_left _)
    · exact .inl (List.mem_append_right _ (by simp [Wiring.handed]))

end Next

/-- Before any fold all nodes are in the wiring. -/
theorem placement_start {order : List String} {w : Wiring} (isOrder : w.IsOrder order)
    {r : Registry} (declared : ∀ a ∈ w.arrows, r.Declares a)
    (fresh : ∀ id ∈ order, ∀ node, r.get? id = some node → node.members = []) :
    Placement order r [] ⟨r, w⟩ where
  same := .refl r
  sub := fun _ hid => isOrder.perm.mem_iff.mpr hid
  somewhere := fun _ hid => .inl (isOrder.perm.mem_iff.mp hid)
  inside := by
    intro fork hfork node hn m hm
    simp [fresh fork hfork node hn] at hm
  declared := fun a ha => .inr (declared a ha)

/-- Where all nodes are when all matched blocks have been folded. -/
theorem placement_of_foldAll {w : Wiring} (v : w.Valid) {order : List String}
    (isOrder : w.IsOrder order) {r : Registry} {blocks : List Block}
    (matched : matchAll r order = .ok blocks) (declared : ∀ a ∈ w.arrows, r.Declares a)
    (fresh : ∀ id ∈ order, ∀ node, r.get? id = some node → node.members = [])
    (forks : ∀ id ∈ order, ∀ node, r.get? id = some node → Registry.DistinctKeys node)
    {g : Folding} (run : foldAll blocks ⟨r, w⟩ = (.ok (), g)) :
    Placement order r (pairsAll blocks) g ∧ Foldable order.idxOf [] g.wiring := by
  have foldable := foldable_of_matchAll v isOrder matched
  have nodup := isOrder.perm.nodup_iff.mpr v.nodup
  have all := Foldable.run (f := ⟨r, w⟩) foldable (motive := Placement order r)
    (placement_start isOrder declared fresh) ?_
  · rw [foldAll_eq] at run
    exact (all.of_ok run).symm
  · intro done p rest f f' hsplit hf hplaced hfold hreg
    have paired : Paired r order p := paired_of_matchAll nodup matched (by simp [hsplit])
    obtain ⟨node, hn, -⟩ := bracket?_eq_opening.mp paired.opening
    have unused := (fresh_of_matchAll nodup matched hsplit).2.1
    exact hplaced.next hf hfold hreg unused hn (forks p.1 paired.start node hn)

end Block

namespace Level

/-- Arranging a built level succeeds when each of its phases does. -/
theorem arrange_eq_ok {graph : EditorGraph} {s t : Session} {w : Wiring} {order : List String} :
    arrange graph s = (.ok (w, order), t) ↔
      ∃ w₀ s₁ blocks g, connectAll graph s = (.ok w₀, s₁) ∧ w₀.topologicalOrder = .ok order ∧
        Block.matchAll s₁.registry order = .ok blocks ∧
        Block.foldAll blocks ⟨s₁.registry, w₀⟩ = (.ok (), g) ∧ w = g.wiring ∧
        t = { s₁ with registry := g.registry } := by
  unfold arrange
  constructor
  · intro h
    obtain ⟨w₀, s₁, hconnect, h⟩ := run_bind_eq_ok.mp h
    obtain ⟨sorted, _, hrun, h⟩ := run_bind_eq_ok.mp h
    rw [run_lift] at hrun
    obtain ⟨hsort, rfl⟩ := Prod.mk.inj hrun
    obtain ⟨blocks, _, hrun, h⟩ := run_bind_eq_ok.mp h
    rw [run_ofSession] at hrun
    obtain ⟨hmatch, rfl⟩ := Prod.mk.inj hrun
    obtain ⟨folded, s₂, hfold, h⟩ := run_bind_eq_ok.mp h
    obtain ⟨hout, rfl⟩ := Prod.mk.inj h
    obtain ⟨rfl, rfl⟩ := Prod.mk.inj (Except.ok.inj hout)
    unfold foldBlocks at hfold
    rcases hrun : Block.foldAll blocks ⟨s₁.registry, w₀⟩ with ⟨e | _, g⟩
    · rw [hrun] at hfold
      cases hfold
    · rw [hrun] at hfold
      obtain ⟨hw, rfl⟩ := Prod.mk.inj hfold
      exact ⟨w₀, s₁, blocks, g, hconnect, hsort, hmatch, hrun, (Except.ok.inj hw).symm, rfl⟩
  · rintro ⟨w₀, s₁, blocks, g, hconnect, hsort, hmatch, hfold, rfl, rfl⟩
    refine run_bind_eq_ok.mpr ⟨w₀, s₁, hconnect, ?_⟩
    refine run_bind_eq_ok.mpr ⟨order, s₁, congrArg (·, s₁) hsort, ?_⟩
    refine run_bind_eq_ok.mpr ⟨blocks, s₁, congrArg (·, s₁) hmatch, ?_⟩
    refine run_bind_eq_ok.mpr ⟨g.wiring, { s₁ with registry := g.registry }, ?_, rfl⟩
    unfold foldBlocks
    rw [hfold]
    rfl

/-- A level compiles when it is built, arranged and read off. -/
theorem compile_eq_ok {nested : NestedCompiler} {graph : EditorGraph} {s t : Session}
    {flow : Flow} :
    compile nested graph s = (.ok flow, t) ↔
      ∃ built w order, buildAll nested graph s = (.ok (), built) ∧
        arrange graph built = (.ok (w, order), t) ∧
        Flattening.flow t w order (graph.resources.map EditorNode.id) = .ok flow := by
  rw [compile_eq]
  constructor
  · intro h
    obtain ⟨_, built, hbuild, h⟩ := run_bind_eq_ok.mp h
    obtain ⟨⟨w, order⟩, u, harrange, h⟩ := run_bind_eq_ok.mp h
    obtain ⟨hflow, rfl⟩ := Prod.mk.inj h
    exact ⟨built, w, order, hbuild, harrange, hflow⟩
  · rintro ⟨built, w, order, hbuild, harrange, hflow⟩
    refine run_bind_eq_ok.mpr ⟨(), built, hbuild, ?_⟩
    exact run_bind_eq_ok.mpr ⟨(w, order), t, harrange, congrArg (·, t) hflow⟩

/-- What is known of the phases of a compile that succeeds: the sessions in which its level was
built and connected, the order of its nodes, and what folding its blocks left. -/
structure Compiled (room : Nat) (graph : EditorGraph) (s t : Session) (flow : Flow)
    (built connected : Session) (order : List String) (blocks : List Block) (g : Block.Folding) :
    Prop where
  building : buildAll (nestedCompiler room) graph s = (.ok (), built)
  holds : built.Holds graph.nodes
  reconnects : built.Reconnects connected
  scanned : Scanned graph built
  isOrder : (wiring built.registry graph).IsOrder order
  matched : Block.matchAll connected.registry order = .ok blocks
  folding : Block.foldAll blocks ⟨connected.registry, wiring built.registry graph⟩ = (.ok (), g)
  same : connected.registry.Same g.registry
  final : t = { connected with registry := g.registry }
  flow : Flattening.flow t g.wiring order (graph.resources.map EditorNode.id) = .ok flow

theorem compiled_of_compile {room : Nat} {graph : EditorGraph} {s t : Session} {flow : Flow}
    (run : compile (nestedCompiler room) graph s = (.ok flow, t)) :
    ∃ built connected order blocks g,
      Compiled room graph s t flow built connected order blocks g := by
  obtain ⟨s₁, _, order, hbuild, harrange, hflow⟩ := compile_eq_ok.mp run
  obtain ⟨w, s₂, blocks, g, hconnect, hsort, hmatch, hfold, rfl, final⟩ :=
    arrange_eq_ok.mp harrange
  obtain ⟨-, holds, -⟩ := (ensures_buildAll (behaves_nestedCompiler room) graph s).of_ok hbuild
  obtain ⟨re, rfl, scanned⟩ := (ensures_connectAll graph s₁).of_ok hconnect
  have fresh := fresh_of_holds holds re
  have v := valid_wiring s₁.registry graph
  have isOrder := v.isOrder_of_topologicalOrder hsort
  have mem : ∀ id ∈ (wiring s₁.registry graph).nodes, id ∈ graph.nodes.map EditorNode.id :=
    fun id => (Wiring.mem_nodes_wired (ends_of_edges scanned.ends)).mp
  have keeps := (Block.ensures_foldAll v isOrder hmatch
    (fun id hid => fresh.present id (mem id hid))
    (fun id hid => fresh.members id (mem id hid))).of_ok hfold
  exact ⟨s₁, s₂, order, blocks, g, hbuild, holds, re, scanned, isOrder, hmatch, hfold, keeps.same,
    final, hflow⟩

namespace Compiled

variable {room : Nat} {graph : EditorGraph} {s t built connected : Session} {flow : Flow}
  {order : List String} {blocks : List Block} {g : Block.Folding}
  (c : Compiled room graph s t flow built connected order blocks g)

include c

theorem mem_order {id : String} : id ∈ order ↔ id ∈ graph.nodes.map EditorNode.id :=
  c.isOrder.perm.mem_iff.trans (Wiring.mem_nodes_wired (ends_of_edges c.scanned.ends))

theorem nodup : order.Nodup := c.isOrder.perm.nodup_iff.mpr (valid_wiring built.registry graph).nodup

theorem registered : built.registry.Same t.registry := by
  rw [c.final]
  exact c.reconnects.same.trans c.same

/-- A node with an id of its own is registered in the end as it was built. -/
theorem registers (distinct : (graph.nodes.map EditorNode.id).Nodup) {raw : EditorNode} {node : Node}
    (builds : BuildsAs (nestedCompiler room) graph s raw node) :
    ∃ now, t.node? raw.id = some now ∧ now.bare = node.bare := by
  obtain ⟨u, v, begins, run⟩ := builds
  obtain ⟨made, w, run', registered⟩ := begins.exists_built (behaves_nestedCompiler room) c.building
  obtain rfl : node = made := Except.ok.inj (Prod.mk.inj (run.symm.trans run')).1
  exact c.registered.exists_get? (registered distinct)

theorem exists_builds {raw : EditorNode} (h : raw ∈ graph.nodes) :
    ∃ node, BuildsAs (nestedCompiler room) graph s raw node := by
  obtain ⟨u, begins⟩ := exists_begins c.building h
  obtain ⟨node, v, run, -⟩ := begins.exists_built (behaves_nestedCompiler room) c.building
  exact ⟨node, u, v, begins, run⟩

/-- The nodes of the level stand in the registry as they were built, but for connections and
branches. -/
theorem exists_node {raw : EditorNode} (h : raw ∈ graph.nodes) :
    ∃ made ∈ graph.nodes, made.id = raw.id ∧ ∃ first node, Node.BuiltFrom made first ∧
      t.node? raw.id = some node ∧ first.bare = node.bare := by
  obtain ⟨made, hmade, hid, first, hfirst, from_⟩ := c.holds raw h
  obtain ⟨node, hnode, hbare⟩ := c.registered.exists_get? hfirst
  exact ⟨made, hmade, hid, first, node, from_, hnode, hbare.symm⟩

end Compiled

/-- Where a level compiles, a node with an id of its own is built, and registered in the end as it
was built. -/
theorem exists_buildsAs {room : Nat} {graph : EditorGraph} {s : Session}
    (ok : (compile (nestedCompiler room) graph s).1.isOk = true)
    (distinct : (graph.nodes.map EditorNode.id).Nodup) {raw : EditorNode} (h : raw ∈ graph.nodes) :
    ∃ node now, BuildsAs (nestedCompiler room) graph s raw node ∧
      (compile (nestedCompiler room) graph s).2.node? raw.id = some now ∧ now.bare = node.bare := by
  rcases run : compile (nestedCompiler room) graph s with ⟨e | flow, t⟩
  · rw [run] at ok
    cases ok
  · obtain ⟨built, connected, order, blocks, g, c⟩ := compiled_of_compile run
    obtain ⟨node, builds⟩ := c.exists_builds h
    obtain ⟨now, hnow, hbare⟩ := c.registers distinct builds
    exact ⟨node, now, builds, hnow, hbare⟩

end Level

/-- Whether a node is in a branch of a fork of the level. -/
def Session.Encloses (s : Session) (graph : EditorGraph) (fork id : String) : Prop :=
  fork ∈ graph.nodes.map EditorNode.id ∧ ∃ node, s.node? fork = some node ∧ id ∈ node.members

/-- The number of entries of a flow that stand for the node with this id. -/
def Flow.entriesOf (flow : Flow) (id : String) : Nat := flow.nodes.countP (Flattening.entryOf id)

/-- The nodes of a level that are built: each once in the order, and no stand-in among them. -/
structure Session.Built (s : Session) (graph : EditorGraph) (order : List String) : Prop where
  nodup : order.Nodup
  mem : ∀ id, id ∈ order ↔ id ∈ graph.nodes.map EditorNode.id
  nodes : ∀ id ∈ order, ∃ node, s.node? id = some node ∧ node.id = id ∧ node.WellMade ∧
    node.isFailed = false

namespace Level

/-- Where the nodes of a level are after a compile, `left` being those that are read off. -/
structure Placed (graph : EditorGraph) (t : Session) (flow : Flow) (order left : List String) :
    Prop where
  nodup : order.Nodup
  mem : ∀ id, id ∈ order ↔ id ∈ graph.nodes.map EditorNode.id
  nodes : ∀ id ∈ order, ∃ node, t.node? id = some node ∧ node.id = id ∧ node.WellMade
  inside : ∀ fork m, t.Encloses graph fork m →
    m ∉ left ∧ m ∈ order ∧ order.idxOf fork < order.idxOf m
  somewhere : ∀ id ∈ order, id ∈ left ∨
    (∃ node, t.node? id = some node ∧ node.isAggregator = true) ∨
    ∃ fork ∈ order, order.idxOf fork < order.idxOf id ∧
      ∃ node, t.node? fork = some node ∧ node.isFork = true ∧ node.TakesIn id
  unique : left.Nodup
  read : ∃ w, Flattening.emitNodes t w left = .ok (flow.nodes, flow.edges)

namespace Compiled

variable {room : Nat} {graph : EditorGraph} {s t built connected : Session} {flow : Flow}
  {order : List String} {blocks : List Block} {g : Block.Folding}
  (c : Compiled room graph s t flow built connected order blocks g)

include c

/-- What a node is to the matching it is in the end. -/
theorem exists_final {id : String} {old : Node} (h : connected.registry.get? id = some old) :
    ∃ node, t.node? id = some node ∧ node.bare = old.bare := by
  rw [c.final]
  exact c.same.exists_get? h

/-- What leaves a fork carries the key of a declared case when the blocks are matched. -/
theorem declares {a : Arrow} (h : a ∈ (wiring built.registry graph).arrows) :
    connected.registry.Declares a := by
  rw [wiring, Wiring.arrows_wired (ends_of_edges c.scanned.ends)] at h
  obtain ⟨edge, hedge, rfl⟩ := List.mem_map.mp h
  exact c.reconnects.same.declares (declares_of_scanned c.holds c.scanned hedge)

theorem isFork_of_mem_pairs {p : String × String} (h : p ∈ Block.pairsAll blocks) :
    p.1 ∈ order ∧ ∃ node, t.node? p.1 = some node ∧ node.isFork = true := by
  have paired := Block.paired_of_matchAll c.nodup c.matched h
  obtain ⟨old, hold, isFork⟩ := Block.bracket?_eq_opening.mp paired.opening
  obtain ⟨node, hnode, hbare⟩ := c.exists_final hold
  exact ⟨paired.start, node, hnode, (Node.isFork_of_bare hbare).trans isFork⟩

theorem isAggregator_of_mem_pairs {p : String × String} (h : p ∈ Block.pairsAll blocks) :
    ∃ node, t.node? p.2 = some node ∧ node.isAggregator = true := by
  have paired := Block.paired_of_matchAll c.nodup c.matched h
  obtain ⟨old, hold, -, isAggregator⟩ := Block.bracket?_eq_closing.mp paired.closing
  obtain ⟨node, hnode, hbare⟩ := c.exists_final hold
  exact ⟨node, hnode, (Node.isAggregator_of_bare hbare).trans isAggregator⟩

variable (distinct : ∀ raw ∈ graph.nodes, ∀ node, t.node? raw.id = some node →
  Registry.DistinctKeys node)

include distinct

theorem placement : Block.Placement order connected.registry (Block.pairsAll blocks) g := by
  refine (Block.placement_of_foldAll (valid_wiring built.registry graph) c.isOrder c.matched
    (fun _ => c.declares) (fun id hid => ?_) (fun id hid node hn => ?_) c.folding).1
  · exact (fresh_of_holds c.holds c.reconnects).members id (c.mem_order.mp hid)
  · obtain ⟨raw, hraw, rfl⟩ := List.mem_map.mp (c.mem_order.mp hid)
    obtain ⟨now, hnow, hbare⟩ := c.exists_final hn
    exact Registry.distinctKeys_of_bare hbare (distinct raw hraw now hnow)

theorem placed : Placed graph t flow order (order.filter g.wiring.contains) := by
  have placement := c.placement distinct
  have registry : t.registry = g.registry := by rw [c.final]
  have hleft : ∀ id ∈ order, (id ∈ order.filter g.wiring.contains ↔ id ∈ g.wiring.nodes) := by
    intro id hid
    simp [Wiring.contains, hid]
  refine ⟨c.nodup, fun _ => c.mem_order, ?_, ?_, ?_, c.nodup.filter _, g.wiring,
    Flattening.nodes_of_flow c.flow⟩
  · intro id hid
    obtain ⟨raw, hraw, rfl⟩ := List.mem_map.mp (c.mem_order.mp hid)
    obtain ⟨made, -, hid', first, node, from_, hnode, hbare⟩ := c.exists_node hraw
    exact ⟨node, hnode, (Node.id_of_bare hbare).symm.trans (from_.id.trans hid'),
      from_.wellMade.of_bare hbare⟩
  · rintro fork m ⟨hfork, node, hnode, hm⟩
    have hnode : g.registry.get? fork = some node := registry ▸ hnode
    obtain ⟨hout, hin, hlt⟩ := placement.inside fork (c.mem_order.mpr hfork) node hnode m hm
    exact ⟨fun h => hout ((hleft m hin).mp h), hin, hlt⟩
  · intro id hid
    rw [hleft id hid]
    rcases placement.somewhere id hid with hin | hin | ⟨p, hp, hlt, fork, hfork, hin⟩
    · exact .inl hin
    · obtain ⟨p, hp, rfl⟩ := List.mem_map.mp hin
      exact .inr (.inl (c.isAggregator_of_mem_pairs hp))
    · obtain ⟨horder, node, hnode, isFork⟩ := c.isFork_of_mem_pairs hp
      have hfork : t.node? p.1 = some fork := by
        rw [← hfork, ← registry]
        rfl
      obtain rfl : node = fork := Option.some.inj (hnode.symm.trans hfork)
      exact .inr (.inr ⟨p.1, horder, hlt, node, hnode, isFork, hin⟩)

end Compiled

/-- The same for a level without stand-ins, with the number of entries of each node. -/
structure Accounted (graph : EditorGraph) (t : Session) (flow : Flow) (order left : List String) :
    Prop where
  built : t.Built graph order
  inside : ∀ fork m, t.Encloses graph fork m →
    m ∉ left ∧ m ∈ order ∧ order.idxOf fork < order.idxOf m
  somewhere : ∀ id ∈ order, ∀ node, t.node? id = some node → node.isMarker = false →
    id ∈ left ∨ ∃ fork, t.Encloses graph fork id
  entries : ∀ id ∈ order, ∀ node, t.node? id = some node → node.isMarker = false →
    flow.entriesOf id = if id ∈ left then 1 else 0

theorem accounted_of_compile {room : Nat} {graph : EditorGraph} {s t : Session} {flow : Flow}
    (run : compile (nestedCompiler room) graph s = (.ok flow, t))
    (built : ∀ raw ∈ graph.nodes, ∀ node, t.node? raw.id = some node →
      node.isFailed = false ∧ Registry.DistinctKeys node) :
    ∃ order left, Accounted graph t flow order left := by
  obtain ⟨first, connected, order, blocks, g, c⟩ := compiled_of_compile run
  have placed := c.placed fun raw hraw node hnode => (built raw hraw node hnode).2
  have final : ∀ id ∈ order, ∃ node, t.node? id = some node ∧ node.id = id ∧ node.WellMade ∧
      node.isFailed = false := by
    intro id hid
    obtain ⟨node, hnode, hid', hmade⟩ := placed.nodes id hid
    obtain ⟨raw, hraw, rfl⟩ := List.mem_map.mp ((placed.mem id).mp hid)
    exact ⟨node, hnode, hid', hmade, (built raw hraw node hnode).1⟩
  refine ⟨order, _, ⟨placed.nodup, placed.mem, final⟩, placed.inside, ?_, ?_⟩
  · intro id hid node hnode hmarker
    rcases placed.somewhere id hid with hin | ⟨found, hfound, haggregator⟩ |
      ⟨fork, hfork, -, found, hfound, hisFork, hin⟩
    · exact .inl hin
    · obtain rfl : node = found := Option.some.inj (hnode.symm.trans hfound)
      simp [Node.isMarker, haggregator] at hmarker
    · obtain ⟨made, hmade, -, wellMade, hbuilt⟩ := final fork hfork
      obtain rfl : made = found := Option.some.inj (hmade.symm.trans hfound)
      have hbranches := (wellMade.branching?_isSome hbuilt).trans hisFork
      exact .inr ⟨fork, (placed.mem fork).mp hfork, made, hmade, hin.mem_members hbranches⟩
  · intro id hid node hnode hmarker
    obtain ⟨node', hnode', -, hmade, hfailed⟩ := final id hid
    obtain rfl : node = node' := Option.some.inj (hnode.symm.trans hnode')
    obtain ⟨w, hread⟩ := placed.read
    have hcount := Flattening.countP_emitNodes hread (fun x hx found hfound => ?_) hnode
      ((hmade.isStructural hfailed).trans hmarker)
    · show flow.nodes.countP (Flattening.entryOf id) = _
      rw [hcount]
      by_cases hin : id ∈ order.filter g.wiring.contains
      · rw [if_pos hin]
        exact List.count_eq_one_of_mem placed.unique hin
      · rw [if_neg hin]
        exact List.count_eq_zero.mpr hin
    · obtain ⟨other, hother, hid', -, hbuilt⟩ := final x (List.mem_filter.mp hx).1
      obtain rfl : found = other := Option.some.inj (hfound.symm.trans hother)
      exact ⟨hid', hbuilt⟩

/-- The fork in whose branches a node is stands before it and is emitted like any other node. -/
theorem Accounted.fork {graph : EditorGraph} {t : Session} {flow : Flow}
    {order left : List String} (acc : Accounted graph t flow order left) {fork id : String}
    (h : t.Encloses graph fork id) :
    fork ∈ order ∧ order.idxOf fork < order.idxOf id ∧
      ∃ node, t.node? fork = some node ∧ node.isMarker = false := by
  have hin : fork ∈ order := (acc.built.mem fork).mpr h.1
  have hlt := (acc.inside fork id h).2.2
  obtain ⟨-, node, hnode, hmember⟩ := h
  obtain ⟨made, hmade, -, wellMade, built⟩ := acc.built.nodes fork hin
  obtain rfl : node = made := Option.some.inj (hnode.symm.trans hmade)
  have hfork : node.isFork = true := by
    rw [← wellMade.branching?_isSome built]
    rcases hb : node.body.branching? with _ | b
    · simp [Node.members, hb] at hmember
    · rfl
  exact ⟨hin, hlt, node, hnode, Node.not_isMarker_of_isFork hfork⟩

/-- From every node, forks can be followed outwards to one that is emitted. -/
theorem Accounted.climb {graph : EditorGraph} {t : Session} {flow : Flow}
    {order left : List String} (acc : Accounted graph t flow order left) {id : String}
    (hid : id ∈ order) {node : Node} (hnode : t.node? id = some node)
    (visible : node.isMarker = false) :
    ∃ top, Relation.ReflTransGen (fun inner outer => t.Encloses graph outer inner) id top ∧
      flow.entriesOf top = 1 := by
  induction hn : order.idxOf id using Nat.strong_induction_on generalizing id node with
  | _ n ih =>
    rcases acc.somewhere id hid node hnode visible with hin | ⟨fork, hfork⟩
    · exact ⟨id, .refl, by rw [acc.entries id hid node hnode visible, if_pos hin]⟩
    · obtain ⟨horder, hlt, made, hmade, hvisible⟩ := acc.fork hfork
      obtain ⟨top, hclimb, htop⟩ := ih _ (hn ▸ hlt) horder hmade hvisible rfl
      exact ⟨top, .head hfork hclimb, htop⟩

/-- Every node of a level that compiles, but for starts, ends and aggregators, is emitted once and
is in no branch, or it is in branches only, each of which is inside a fork that is emitted. -/
theorem nodes_are_placed {room : Nat} {graph : EditorGraph} {s t : Session} {flow : Flow}
    (run : compile (nestedCompiler room) graph s = (.ok flow, t))
    (built : ∀ raw ∈ graph.nodes, ∀ node, t.node? raw.id = some node →
      node.isFailed = false ∧ Registry.DistinctKeys node)
    {id : String} (hid : id ∈ graph.nodes.map EditorNode.id) :
    ∃ node, t.node? id = some node ∧ (node.isMarker = false →
      (flow.entriesOf id = 1 ∧ ∀ fork, ¬ t.Encloses graph fork id) ∨
      (flow.entriesOf id = 0 ∧ (∃ fork, t.Encloses graph fork id) ∧
        ∀ fork, t.Encloses graph fork id → ∃ top,
          Relation.ReflTransGen (fun inner outer => t.Encloses graph outer inner) fork top ∧
            flow.entriesOf top = 1)) := by
  obtain ⟨order, left, acc⟩ := accounted_of_compile run built
  have horder := (acc.built.mem id).mpr hid
  obtain ⟨node, hnode, -⟩ := acc.built.nodes id horder
  refine ⟨node, hnode, fun visible => ?_⟩
  have hentries := acc.entries id horder node hnode visible
  by_cases hin : id ∈ left
  · rw [if_pos hin] at hentries
    exact .inl ⟨hentries, fun fork h => (acc.inside fork id h).1 hin⟩
  · rw [if_neg hin] at hentries
    have hfork := (acc.somewhere id horder node hnode visible).resolve_left hin
    refine .inr ⟨hentries, hfork, fun fork h => ?_⟩
    obtain ⟨hin', -, made, hmade, hvisible⟩ := acc.fork h
    exact acc.climb hin' hmade hvisible

/-- A node of the editor with nothing but a kind. -/
def bareNode (id kind : String) : EditorNode := { id, data := [("payload__kind", .string kind)] }

/-- A graph whose fork has a node in one branch and none in the other. -/
def oneFork : EditorGraph where
  nodes := [bareNode "s" "start", bareNode "f" "ifs", bareNode "a" "formatter",
    bareNode "g" "aggregator", bareNode "e" "end"]
  edges := [{ source := "s", target := "f" },
    { source := "f", target := "a", sourceHandle := some "true" },
    { source := "a", target := "g" },
    { source := "f", target := "g", sourceHandle := some "false" },
    { source := "g", target := "e" }]

theorem nodes_are_placed_oneFork :
    ∃ flow t, compile (nestedCompiler 16) oneFork {} = (.ok flow, t) ∧
      ∃ node, t.node? "a" = some node ∧ (node.isMarker = false →
        (flow.entriesOf "a" = 1 ∧ ∀ fork, ¬ t.Encloses oneFork fork "a") ∨
        (flow.entriesOf "a" = 0 ∧ (∃ fork, t.Encloses oneFork fork "a") ∧
          ∀ fork, t.Encloses oneFork fork "a" → ∃ top,
            Relation.ReflTransGen (fun inner outer => t.Encloses oneFork outer inner) fork top ∧
              flow.entriesOf top = 1)) := by
  have ok : (compile (nestedCompiler 16) oneFork {}).1.isOk = true := by decide +kernel
  have built : ∀ raw ∈ oneFork.nodes,
      ∀ node ∈ (compile (nestedCompiler 16) oneFork {}).2.node? raw.id,
        node.isFailed = false ∧ Registry.DistinctKeys node := by decide +kernel
  rcases run : compile (nestedCompiler 16) oneFork {} with ⟨e | flow, t⟩
  · rw [run] at ok
    cases ok
  · rw [run] at built
    exact ⟨flow, t, rfl, nodes_are_placed run built (by decide)⟩

end Level

end WorkflowCompiler
