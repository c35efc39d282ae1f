import WorkflowCompiler.Proofs.Compile.Naming
import WorkflowCompiler.Proofs.Compile.Agreeing

/-!
# What a compile leaves alone

A compile changes nothing that is registered under ids which no level of it declares.
-/
namespace WorkflowCompiler

open Step

/-- The ids that a level declares. -/
def EditorGraph.declared (graph : EditorGraph) : Set String :=
  {id | id ∈ graph.nodes.map EditorNode.id ∨ id ∈ graph.resources.map EditorNode.id}

/-- Whether building a node of the editor compiles a graph inside. -/
def EditorNode.Embeds (c : Collaborators) (o : Options) (raw : EditorNode) (inner : EditorGraph) :
    Prop :=
  raw.HasGraph ∧
    Node.nestedGraph { collaborators := c, options := o } (Node.ofEditor raw) = .ok inner

/-- Whether compiling a level compiles another directly inside. -/
def EditorGraph.Embeds (c : Collaborators) (o : Options) (graph inner : EditorGraph) : Prop :=
  ∃ raw ∈ graph.nodes ++ graph.resources, raw.Embeds c o inner

/-- The ids that a level and all levels inside declare. -/
def EditorGraph.declaredInside (c : Collaborators) (o : Options) (graph : EditorGraph) :
    Set String :=
  {id | ∃ level, Relation.ReflTransGen (Embeds c o) graph level ∧ id ∈ level.declared}

theorem EditorGraph.declared_subset (c : Collaborators) (o : Options) (graph : EditorGraph) :
    graph.declared ⊆ graph.declaredInside c o := fun _ hid => ⟨graph, .refl, hid⟩

theorem EditorGraph.Embeds.declaredInside {c : Collaborators} {o : Options}
    {graph inner : EditorGraph} (h : graph.Embeds c o inner) :
    inner.declaredInside c o ⊆ graph.declaredInside c o :=
  fun _ ⟨level, inside, hid⟩ => ⟨level, .head h inside, hid⟩

/-- A graph without graphs inside declares its own ids only. -/
theorem EditorGraph.declaredInside_of_plain {graph : EditorGraph}
    (plain : ∀ raw ∈ graph.nodes ++ graph.resources, ¬ raw.HasGraph) (c : Collaborators)
    (o : Options) : graph.declaredInside c o = graph.declared := by
  refine Set.Subset.antisymm ?_ (graph.declared_subset c o)
  rintro id ⟨level, inside, hid⟩
  rcases inside.cases_head with rfl | ⟨inner, ⟨raw, hraw, embeds⟩, -⟩
  · exact hid
  · exact absurd embeds.1 (plain raw hraw)

/-- Whether two sessions have the same surroundings and hold the same under all ids but these. -/
structure Session.SameOff (ids : Set String) (s t : Session) : Prop where
  collaborators : t.collaborators = s.collaborators
  options : t.options = s.options
  node? : ∀ id, id ∉ ids → t.node? id = s.node? id

namespace Session.SameOff

variable {ids ids' : Set String} {s t u : Session}

theorem refl (ids : Set String) (s : Session) : s.SameOff ids s := ⟨rfl, rfl, fun _ _ => rfl⟩

theorem trans (h : s.SameOff ids t) (h' : t.SameOff ids u) : s.SameOff ids u :=
  ⟨h'.collaborators.trans h.collaborators, h'.options.trans h.options,
    fun id hid => (h'.node? id hid).trans (h.node? id hid)⟩

theorem mono (h : s.SameOff ids t) (sub : ids ⊆ ids') : s.SameOff ids' t :=
  ⟨h.collaborators, h.options, fun id hid => h.node? id fun hin => hid (sub hin)⟩

theorem modifyNode (s : Session) {id : String} (hid : id ∈ ids) (f : Node → Node) :
    s.SameOff ids (s.modifyNode id f) := by
  refine ⟨rfl, rfl, fun other hother => ?_⟩
  have hne : other ≠ id := fun he => hother (he ▸ hid)
  exact (Entries.get?_modify _ _ _ _).trans (if_neg hne)

theorem register (s : Session) {node : Node} (hid : node.id ∈ ids) :
    s.SameOff ids (s.register node) := by
  refine ⟨rfl, rfl, fun other hother => ?_⟩
  have hne : other ≠ node.id := fun he => hother (he ▸ hid)
  exact Entries.get?_insert_of_ne _ _ hne

theorem registerAll (s : Session) {nodes : List Node} (h : ∀ node ∈ nodes, node.id ∈ ids) :
    s.SameOff ids (s.registerAll nodes) := by
  induction nodes generalizing s with
  | nil => exact .refl ids s
  | cons node nodes ih =>
    exact (register s (h node List.mem_cons_self)).trans
      (ih (s.register node) fun n hn => h n (List.mem_cons_of_mem _ hn))

theorem recordFailure (s : Session) (id : String) (e : CompileError) :
    s.SameOff ids (s.recordFailure id e) := ⟨rfl, rfl, fun _ _ => rfl⟩

theorem leave {app : String} (h : (s.within app).SameOff ids t) : s.SameOff ids t.leave :=
  ⟨h.collaborators, h.options, h.node?⟩

/-- A step may follow others that change no more than it does. -/
theorem keeps {α : Type} {m : Build α} (same : s.SameOff ids t) (h : Keeps m t (t.SameOff ids)) :
    Keeps m t (s.SameOff ids) :=
  h.mono (fun _ _ h => same.trans h) fun _ _ h => same.trans h

end Session.SameOff

namespace Level

open Session

theorem keeps_connect (ids : List String) (w : Wiring) (edge : EditorEdge) (s : Session) :
    Keeps (connect ids w edge) s (s.SameOff {id | id ∈ ids}) := by
  unfold Keeps Ensures
  rw [run_connect]
  rcases hends : checkEnds ids edge with e | _
  · exact .refl _ s
  obtain ⟨hsource, htarget⟩ := checkEnds_eq_ok.mp hends
  dsimp only
  rcases s.node? edge.source with _ | source
  · exact .modifyNode s htarget _
  · dsimp only
    rcases leave source edge with e | ⟨made, data⟩
    · exact .refl _ s
    · exact (SameOff.modifyNode s hsource _).trans (.modifyNode _ htarget _)

theorem keeps_connectAll (graph : EditorGraph) (s : Session) :
    Keeps (connectAll graph) s (s.SameOff {id | id ∈ graph.nodes.map EditorNode.id}) :=
  keeps_foldlM (fun w edge _ t ht => ht.keeps (keeps_connect _ w edge t)) _ (.refl _ s)

/-- Folding changes forks of the wiring only. -/
theorem keeps_foldAll {ids : Set String} {r : Registry} (blocks : List Block) {f : Block.Folding}
    (among : Among ids f.wiring) (same : ∀ id, id ∉ ids → f.registry.get? id = r.get? id) :
    Keeps (Block.foldAll blocks) f fun g =>
      Among ids g.wiring ∧ ∀ id, id ∉ ids → g.registry.get? id = r.get? id := by
  rw [Block.foldAll_eq]
  refine keeps_forM (fun p _ g hg => ?_) ⟨among, same⟩
  obtain ⟨among, same⟩ := hg
  unfold Keeps Ensures
  rw [Block.run_foldOne]
  rcases hregions : g.wiring.regionsByKey p.1 p.2 with e | _ | bodies
  · exact ⟨among, same⟩
  · exact ⟨among, same⟩
  have hstart : p.1 ∈ ids := among.nodes p.1 (Wiring.regionsByKey_eq_some hregions).1
  have changed : ∀ (f : Node → Node) id, id ∉ ids →
      (g.registry.modify p.1 f).get? id = r.get? id := by
    intro f id hid
    have hne : id ≠ p.1 := fun he => hid (he ▸ hstart)
    rw [Entries.get?_modify, if_neg hne]
    exact same id hid
  dsimp only
  rcases hcompress : g.wiring.compress p.1 p.2 with e | w
  · exact ⟨among, changed _⟩
  · have folds := among.valid.folds hcompress
    exact ⟨⟨folds.valid, fun id hid => among.nodes id (folds.mem_nodes.mp hid).1⟩, changed _⟩

/-- Arranging a level changes its own nodes only. -/
theorem keeps_arrange (graph : EditorGraph) (s : Session) :
    Keeps (arrange graph) s (s.SameOff {id | id ∈ graph.nodes.map EditorNode.id}) := by
  unfold arrange
  have scanned := (ensures_connectAll graph s).and (keeps_connectAll graph s)
  refine (scanned.mono (fun _ _ h => h) fun _ _ h => h.2).bind fun w t ht => ?_
  obtain ⟨⟨-, rfl, hscanned⟩, same⟩ := ht
  have among : Among {id | id ∈ graph.nodes.map EditorNode.id} (wiring s.registry graph) :=
    ⟨valid_wiring s.registry graph, fun id hid =>
      (Wiring.mem_nodes_wired (ends_of_edges hscanned.ends)).mp hid⟩
  refine ensures_lift_bind (fun order _ => ?_) fun _ _ => same
  refine ensures_ofSession_bind (fun blocks _ => ?_) fun _ _ => same
  have folded := keeps_foldAll blocks (f := ⟨t.registry, _⟩) among same.node?
  have kept : Keeps (foldBlocks blocks (wiring s.registry graph)) t
      (s.SameOff {id | id ∈ graph.nodes.map EditorNode.id}) := by
    rw [keeps_iff] at folded ⊢
    exact ⟨same.collaborators, same.options, folded.2⟩
  exact kept.bind fun w u hu => ensures_pure hu

section Building

variable {nested : NestedCompiler} (behaves : ∀ graph s, Behaves (nested graph) s)
  (frames : ∀ graph s, Keeps (nested graph) s
    (s.SameOff (graph.declaredInside s.collaborators s.options)))

include behaves frames

omit behaves in
/-- Building a node changes what the levels inside declare. -/
theorem keeps_build (ids : Set String) (raw : EditorNode) (s : Session)
    (inside : ∀ inner, raw.Embeds s.collaborators s.options inner →
      inner.declaredInside s.collaborators s.options ⊆ ids) :
    Keeps (Node.build nested raw) s (s.SameOff ids) := by
  unfold Keeps Ensures
  by_cases hsub : raw.HasGraph
  · rw [Node.build_subgraph nested hsub, Node.run_buildNested]
    rcases hentrance : (Node.ofEditor raw).entrance s with e | ⟨flavor, inner, t⟩
    · exact .refl ids s
    obtain ⟨-, hgraph, henter⟩ := Node.entrance_eq_ok.mp hentrance
    obtain rfl := Session.enter_eq_ok henter
    have kept := keeps_iff.mp (frames inner (s.within (Node.ofEditor raw).appId))
    have kept := (kept.mono (inside inner ⟨hsub, hgraph⟩)).leave
    dsimp only
    rcases hrun : nested inner (s.within (Node.ofEditor raw).appId) with ⟨e | flow, u⟩
    all_goals
      rw [hrun] at kept
      exact kept
  · rw [Node.run_build_plain nested hsub]
    rcases raw.builtPlain s.collaborators with e | node <;> exact .refl ids s

omit behaves frames in
theorem keeps_orPlaceholder {ids : Set String} {raw : EditorNode} {step : Build Node} {s : Session}
    (h : Keeps step s (s.SameOff ids)) : Keeps (orPlaceholder raw step) s (s.SameOff ids) :=
  ensures_orPlaceholder h (fun e t h _ => h.trans (.recordFailure t raw.id e)) fun _ _ h _ => h

omit behaves in
theorem keeps_buildNode (ids : Set String) (raw : EditorNode) (s : Session)
    (inside : ∀ inner, raw.Embeds s.collaborators s.options inner →
      inner.declaredInside s.collaborators s.options ⊆ ids) :
    Keeps (buildNode nested raw) s (s.SameOff ids) := by
  refine keeps_orPlaceholder ((keeps_build frames ids raw s inside).bind fun node t ht => ?_)
  unfold checked
  exact ensures_ofSession_bind (fun _ _ => ensures_pure ht) fun _ _ => ht

theorem keeps_buildResource (ids : Set String) (raw : EditorNode) (s : Session) (mem : raw.id ∈ ids)
    (inside : ∀ inner, raw.Embeds s.collaborators s.options inner →
      inner.declaredInside s.collaborators s.options ⊆ ids) :
    Keeps (buildResource nested raw) s (s.SameOff ids) := by
  have built := (keeps_orPlaceholder (keeps_build frames ids raw s inside)).and
    (ensures_orPlaceholder_build behaves raw s)
  refine (built.mono (fun _ _ h => h) fun _ _ h => h.1).bind fun node t ht => ?_
  exact ensures_registered (ht.1.trans (.register t (ht.2.1.id ▸ mem)))

omit behaves frames in
theorem keeps_checkResource {ids : Set String} {raw : EditorNode} (resource : Node) (s : Session)
    (mem : raw.id ∈ ids) : Keeps (checkResource raw resource) s (s.SameOff ids) :=
  ensures_checked_or_replaced (fun _ => .refl ids s) fun e _ =>
    (SameOff.recordFailure s raw.id e).trans (.register (s.recordFailure raw.id e) mem)

/-- Building a level changes what it declares and what the levels inside declare. -/
theorem keeps_buildAll (graph : EditorGraph) (s : Session) :
    Keeps (buildAll nested graph) s
      (s.SameOff (graph.declaredInside s.collaborators s.options)) := by
  have declared := graph.declared_subset s.collaborators s.options
  have mem : ∀ raw ∈ graph.nodes, raw.id ∈ graph.declaredInside s.collaborators s.options :=
    fun raw hraw => declared (.inl (List.mem_map_of_mem hraw))
  have mem' : ∀ raw ∈ graph.resources, raw.id ∈ graph.declaredInside s.collaborators s.options :=
    fun raw hraw => declared (.inr (List.mem_map_of_mem hraw))
  have inside : ∀ raw ∈ graph.nodes ++ graph.resources, ∀ inner,
      raw.Embeds s.collaborators s.options inner →
        inner.declaredInside s.collaborators s.options ⊆
          graph.declaredInside s.collaborators s.options :=
    fun raw hraw inner h => EditorGraph.Embeds.declaredInside ⟨raw, hraw, h⟩
  generalize graph.declaredInside s.collaborators s.options = ids at declared mem mem' inside ⊢
  have resources : Keeps (graph.resources.mapM (buildResource nested)) s (s.SameOff ids) := by
    refine keeps_mapM (fun raw hraw t ht => ?_) (.refl ids s)
    have kept := keeps_buildResource behaves frames ids raw t (mem' raw hraw)
    rw [ht.collaborators, ht.options] at kept
    exact ht.keeps (kept (inside raw (List.mem_append_right _ hraw)))
  unfold buildAll
  refine ((ensures_buildResources behaves graph.resources s).and resources |>.mono
    (fun _ _ h => h) fun _ _ h => h.2).bind fun built t ht => ?_
  obtain ⟨⟨hbuilt, -⟩, ht⟩ := ht
  have checks : Keeps ((graph.resources.zip built).mapM fun p => checkResource p.1 p.2) t
      (s.SameOff ids) := by
    refine keeps_mapM (fun p hp u hu => ?_) ht
    exact hu.keeps (keeps_checkResource p.2 u (mem' p.1 (List.of_mem_zip hp).1))
  refine ((ensures_checkResources hbuilt t).and checks |>.mono
    (fun _ _ h => h) fun _ _ h => h.2).bind fun resources u hu => ?_
  obtain ⟨⟨hresources, -⟩, hu⟩ := hu
  have nodes : Keeps (graph.nodes.mapM (buildNode nested)) u (s.SameOff ids) := by
    refine keeps_mapM (fun raw hraw v hv => ?_) hu
    have kept := keeps_buildNode frames ids raw v
    rw [hv.collaborators, hv.options] at kept
    exact hv.keeps (kept (inside raw (List.mem_append_left _ hraw)))
  refine ((ensures_buildNodes behaves graph.nodes u).and nodes |>.mono
    (fun _ _ h => h) fun _ _ h => h.2).bind fun nodes v hv => ?_
  obtain ⟨⟨hnodes, -⟩, hv⟩ := hv
  unfold Ensures
  rw [run_registers]
  refine (hv.trans (.registerAll v fun node hn => ?_)).trans (.registerAll _ fun node hn => ?_)
  · obtain ⟨raw, hraw, from_⟩ := exists_of_mem_right hresources hn
    exact from_.id ▸ mem' raw hraw
  · obtain ⟨raw, hraw, from_⟩ := exists_of_mem_right hnodes hn
    exact from_.id ▸ mem raw hraw

/-- Compiling a level changes what it declares and what the levels inside declare. -/
theorem keeps_compile (graph : EditorGraph) (s : Session) :
    Keeps (compile nested graph) s
      (s.SameOff (graph.declaredInside s.collaborators s.options)) := by
  rw [compile_eq]
  refine (keeps_buildAll behaves frames graph s).bind fun _ t ht => ?_
  have arranged : Keeps (arrange graph) t
      (s.SameOff (graph.declaredInside s.collaborators s.options)) := (keeps_arrange graph t).mono
    (fun _ _ h => ht.trans (h.mono fun id hid => graph.declared_subset _ _ (.inl hid)))
    fun _ _ h => ht.trans (h.mono fun id hid => graph.declared_subset _ _ (.inl hid))
  exact arranged.bind fun p u hu => ensures_ofSession (fun _ _ => hu) fun _ _ => hu

end Building

theorem keeps_nestedCompiler (room : Nat) (graph : EditorGraph) (s : Session) :
    Keeps (nestedCompiler room graph) s
      (s.SameOff (graph.declaredInside s.collaborators s.options)) := by
  induction room generalizing graph s with
  | zero => exact ensures_throw (.refl _ s)
  | succ room ih => exact keeps_compile (behaves_nestedCompiler room) ih graph s

end Level

end WorkflowCompiler
