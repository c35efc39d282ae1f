import WorkflowCompiler.Proofs.Library.Nests
import WorkflowCompiler.Proofs.Library.Rows

/-!
# Splitting writes what it owns

Splitting saves the graph of an app and the graphs embedded in it as rows of their own. Whether it
succeeds or fails, all rows that it saves are of the version asked for and belong to the app or to
apps inside the graph, each refers to rows that were saved before it, and the row of the app itself
comes last, so that a failure leaves it alone.
-/
namespace WorkflowCompiler

namespace Library

open Step

/-- A row that was saved, and the graph that it was made of. -/
structure Save where
  graph : EditorGraph
  row : Workflow

/-- Whether every graph embedded in a saved graph was saved before it, under its app. -/
def ChildrenFirst (saves : List Save) : Prop :=
  ∀ before save after, saves = before ++ save :: after →
    ∀ node ∈ save.graph.nodes, ∀ child, node.OwnGraph child →
      ∃ earlier ∈ before, earlier.graph = child ∧ earlier.row.appId = node.childApp

theorem childrenFirst_nil : ChildrenFirst [] := by
  intro before save after parts
  simp at parts

theorem ChildrenFirst.append {saves more : List Save} (h : ChildrenFirst saves)
    (h' : ChildrenFirst more) : ChildrenFirst (saves ++ more) := by
  intro before save after parts node hnode child hchild
  rcases List.append_eq_append_iff.mp parts with ⟨front, rfl, hmore⟩ | ⟨back, rfl, hafter⟩
  · obtain ⟨earlier, hmem, hearlier⟩ := h' front save after hmore node hnode child hchild
    exact ⟨earlier, List.mem_append_right _ hmem, hearlier⟩
  · cases back with
    | nil =>
      obtain ⟨earlier, hmem, -⟩ := h' [] save after hafter.symm node hnode child hchild
      cases hmem
    | cons first back =>
      obtain ⟨rfl, rfl⟩ := List.cons_eq_cons.mp hafter
      exact h before save back rfl node hnode child hchild

theorem ChildrenFirst.concat {saves : List Save} (h : ChildrenFirst saves) {save : Save}
    (children : ∀ node ∈ save.graph.nodes, ∀ child, node.OwnGraph child →
      ∃ earlier ∈ saves, earlier.graph = child ∧ earlier.row.appId = node.childApp) :
    ChildrenFirst (saves ++ [save]) := by
  intro before other after parts
  rcases List.append_eq_append_iff.mp parts with ⟨front, rfl, hlast⟩ | ⟨back, rfl, hafter⟩
  · cases front with
    | nil =>
      obtain ⟨rfl, rfl⟩ := List.cons_eq_cons.mp hlast
      simpa using children
    | cons first front => simp at hlast
  · cases back with
    | nil =>
      obtain ⟨rfl, rfl⟩ := List.cons_eq_cons.mp hafter
      simpa using children
    | cons first back =>
      obtain ⟨rfl, rfl⟩ := List.cons_eq_cons.mp hafter
      exact h before other back rfl

/-- All graphs inside a saved graph were saved. -/
theorem ChildrenFirst.owned {saves : List Save} (h : ChildrenFirst saves) {graph child : EditorGraph}
    {app : String} (owns : graph.Owns app child) {save : Save} (mem : save ∈ saves)
    (made : save.graph = graph) : ∃ s ∈ saves, s.graph = child ∧ s.row.appId = app := by
  induction owns generalizing save with
  | here hnode own =>
    obtain ⟨before, after, rfl⟩ := List.append_of_mem mem
    obtain ⟨earlier, hmem, hearlier⟩ := h before save after rfl _ (made ▸ hnode) _ own
    exact ⟨earlier, List.mem_append_left _ hmem, hearlier⟩
  | inside hnode own _ ih =>
    obtain ⟨before, after, rfl⟩ := List.append_of_mem mem
    obtain ⟨earlier, hmem, hearlier, -⟩ := h before save after rfl _ (made ▸ hnode) _ own
    exact ih (List.mem_append_left _ hmem) hearlier

/-- What a walk has done below these ancestors since it was at `start`: every row it has saved holds
its graph, after the rows of the graphs embedded in it, and is of no ancestor. -/
structure Wrote (version : GraphVersion) (ancestors : List String)
    (own : String → EditorGraph → Prop) (start : Walk) (saves : List Save) (walk : Walk) :
    Prop where
  library : walk.library = start.library.saveAll (saves.map Save.row)
  version : ∀ save ∈ saves, save.row.version = version
  savedAs : ∀ save ∈ saves, save.graph.SavedAs save.row.graph
  childrenFirst : ChildrenFirst saves
  own : ∀ save ∈ saves, own save.row.appId save.graph
  apart : ∀ save ∈ saves, save.row.appId ∉ ancestors

namespace Wrote

variable {version : GraphVersion} {ancestors : List String} {own : String → EditorGraph → Prop}
  {start mid walk : Walk} {saves more : List Save}

theorem none (h : walk.library = start.library) : Wrote version ancestors own start [] walk where
  library := h
  version := by simp
  savedAs := by simp
  childrenFirst := childrenFirst_nil
  own := by simp
  apart := by simp

theorem append (h : Wrote version ancestors own start saves mid)
    (h' : Wrote version ancestors own mid more walk) :
    Wrote version ancestors own start (saves ++ more) walk where
  library := by rw [h'.library, h.library, List.map_append, saveAll_append]
  version := List.forall_mem_append.mpr ⟨h.version, h'.version⟩
  savedAs := List.forall_mem_append.mpr ⟨h.savedAs, h'.savedAs⟩
  childrenFirst := h.childrenFirst.append h'.childrenFirst
  own := List.forall_mem_append.mpr ⟨h.own, h'.own⟩
  apart := List.forall_mem_append.mpr ⟨h.apart, h'.apart⟩

theorem mono (h : Wrote version ancestors own start saves walk)
    {own' : String → EditorGraph → Prop} (imp : ∀ app graph, own app graph → own' app graph) :
    Wrote version ancestors own' start saves walk :=
  { h with own := fun save hsave => imp _ _ (h.own save hsave) }

/-- What holds below an app holds below the ancestors of the app. -/
theorem above {app : String} (h : Wrote version (ancestors ++ [app]) own start saves walk) :
    Wrote version ancestors own start saves walk ∧ ∀ save ∈ saves, save.row.appId ≠ app := by
  refine ⟨{ h with apart := fun save hsave hmem => ?_ }, fun save hsave heq => ?_⟩
  · exact h.apart save hsave (List.mem_append_left _ hmem)
  · exact h.apart save hsave (List.mem_append_right _ (List.mem_singleton.mpr heq))

end Wrote

/-- A walk has saved a graph as the row of an app, after all graphs inside it. -/
structure Split (version : GraphVersion) (ancestors : List String) (maxDepth : Nat) (app : String)
    (graph : EditorGraph) (start walk : Walk) : Prop where
  below : walk.ancestry.Below ancestors maxDepth
  outage : walk.library.outage = none
  nests : graph.Nests (maxDepth - ancestors.length)
  wrote : ∃ saves saved, Wrote version ancestors
    (fun k inner => (k = app ∧ inner = graph) ∨ graph.Owns k inner) start
    (saves ++ [⟨graph, ⟨app, version, saved⟩⟩]) walk

/-- A walk has failed before it saved a graph as the row of an app. -/
def BrokenOff (version : GraphVersion) (ancestors : List String) (app : String)
    (graph : EditorGraph) (start walk : Walk) : Prop :=
  ∃ saves, Wrote version ancestors graph.Owns start saves walk ∧
    ∀ save ∈ saves, save.row.appId ≠ app

/-- A walk has saved the graphs embedded in nodes of a graph and knows how to save these nodes. -/
structure SplitNodes (version : GraphVersion) (ancestors : List String) (maxDepth : Nat)
    (graph : EditorGraph) (start : Walk) (nodes saved : List EditorNode) (walk : Walk) : Prop where
  below : walk.ancestry.Below ancestors maxDepth
  savedAs : List.Forall₂ EditorNode.SavedAs nodes saved
  nests : ∀ node ∈ nodes, ∀ child, node.OwnGraph child → child.Nests (maxDepth - ancestors.length)
  wrote : ∃ saves, Wrote version ancestors graph.Owns start saves walk ∧
    ∀ node ∈ nodes, ∀ child, node.OwnGraph child →
      ∃ save ∈ saves, save.graph = child ∧ save.row.appId = node.childApp

section Walks

variable {version : GraphVersion} {ancestors : List String} {maxDepth : Nat}
  {saveChild : String → EditorGraph → WalkM Unit} {graph : EditorGraph}

theorem SplitNodes.append {start mid walk : Walk} {nodes saved more moreSaved : List EditorNode}
    (h : SplitNodes version ancestors maxDepth graph start nodes saved mid)
    (h' : SplitNodes version ancestors maxDepth graph mid more moreSaved walk) :
    SplitNodes version ancestors maxDepth graph start (nodes ++ more) (saved ++ moreSaved) walk := by
  obtain ⟨saves, wrote, covers⟩ := h.wrote
  obtain ⟨saves', wrote', covers'⟩ := h'.wrote
  refine ⟨h'.below, List.rel_append h.savedAs h'.savedAs,
    List.forall_mem_append.mpr ⟨h.nests, h'.nests⟩, saves ++ saves', wrote.append wrote',
    List.forall_mem_append.mpr ⟨fun node hnode child own => ?_, fun node hnode child own => ?_⟩⟩
  · obtain ⟨save, hsave, h⟩ := covers node hnode child own
    exact ⟨save, List.mem_append_left _ hsave, h⟩
  · obtain ⟨save, hsave, h⟩ := covers' node hnode child own
    exact ⟨save, List.mem_append_right _ hsave, h⟩

/-- A node without a graph of its own is saved without further saves. -/
theorem splitNodes_single {node saved : EditorNode} {walk : Walk}
    (below : walk.ancestry.Below ancestors maxDepth) (savedAs : node.SavedAs saved)
    (none : ∀ child, ¬ node.OwnGraph child) :
    SplitNodes version ancestors maxDepth graph walk [node] [saved] walk := by
  refine ⟨below, .cons savedAs .nil, ?_, [], .none rfl, ?_⟩ <;>
    exact List.forall_mem_singleton.mpr fun child own => absurd own (none child)

theorem ensures_splitNode {node : EditorNode} {walk : Walk} (mem : node ∈ graph.nodes)
    (keys : (Entries.keys node.data).Nodup) (below : walk.ancestry.Below ancestors maxDepth)
    (children : ∀ child, node.OwnGraph child → Ensures (saveChild node.childApp child) walk
      (fun _ => Split version ancestors maxDepth node.childApp child walk)
      fun _ => BrokenOff version ancestors node.childApp child walk) :
    Ensures (splitNode saveChild node) walk
      (fun saved t => SplitNodes version ancestors maxDepth graph walk [node] [saved] t)
      fun _ t => ∃ saves, Wrote version ancestors graph.Owns walk saves t := by
  unfold splitNode
  split
  · next holds =>
    have savedAs : node.SavedAs node.detach := .detached holds (EditorNode.detached_detach keys)
    refine ensures_lift_bind (fun child? embedded => ?_) fun e _ => ⟨[], .none rfl⟩
    cases child? with
    | none =>
      refine ensures_pure (splitNodes_single below savedAs fun child own => ?_)
      cases embedded.symm.trans own.embedded
    | some child =>
      cases app : node.isApp with
      | true =>
        simp only [Bool.not_true, Bool.false_eq_true, if_false]
        refine ensures_pure (splitNodes_single below savedAs fun child own => ?_)
        cases app.symm.trans own.isApp
      | false =>
        have own : node.OwnGraph child := ⟨holds, app, embedded⟩
        simp only [Bool.not_false, if_true]
        refine Ensures.bind ((children child own).mono (fun _ _ h => h) ?_) fun _ t split => ?_
        · rintro _ t ⟨saves, wrote, -⟩
          exact ⟨saves, wrote.mono fun _ _ owns => .inside mem own owns⟩
        · obtain ⟨before, row, wrote⟩ := split.wrote
          refine ensures_pure ⟨split.below, .cons savedAs .nil, ?_, _, wrote.mono ?_, ?_⟩
          · refine List.forall_mem_singleton.mpr fun other hother => ?_
            exact own.unique hother ▸ split.nests
          · rintro _ _ (⟨rfl, rfl⟩ | owns)
            · exact .here mem own
            · exact .inside mem own owns
          · refine List.forall_mem_singleton.mpr fun other hother => ?_
            exact ⟨_, List.mem_concat_self, own.unique hother, rfl⟩
  · next holds =>
    have holds := Bool.eq_false_iff.mpr holds
    refine ensures_pure (splitNodes_single below (.plain holds) fun child own => ?_)
    cases own.holdsGraph.symm.trans holds

theorem ensures_splitNodes {walk : Walk} (keyed : graph.Keyed)
    (below : walk.ancestry.Below ancestors maxDepth)
    (children : ∀ node ∈ graph.nodes, ∀ child, node.OwnGraph child → ∀ t : Walk,
      t.ancestry.Below ancestors maxDepth → Ensures (saveChild node.childApp child) t
        (fun _ => Split version ancestors maxDepth node.childApp child t)
        fun _ => BrokenOff version ancestors node.childApp child t) :
    Ensures (graph.nodes.mapM (splitNode saveChild)) walk
      (fun saved t => SplitNodes version ancestors maxDepth graph walk graph.nodes saved t)
      fun _ t => ∃ saves, Wrote version ancestors graph.Owns walk saves t := by
  refine ensures_mapM (SplitNodes version ancestors maxDepth graph walk) ?_
    ⟨below, .nil, by simp, [], .none rfl, by simp⟩
  intro before node after saved t parts done
  have mem : node ∈ graph.nodes := parts ▸ List.mem_append_right _ List.mem_cons_self
  refine (ensures_splitNode mem (keyed node mem) done.below fun child own =>
    children node mem child own t done.below).mono (fun _ u h => done.append h) ?_
  rintro _ u ⟨more, wrote'⟩
  obtain ⟨saves, wrote, -⟩ := done.wrote
  exact ⟨saves ++ more, wrote.append wrote'⟩

/-- Splitting a graph does what it should when splitting the graphs embedded in it does. -/
theorem ensures_splitGraph {app : String} {walk : Walk} (keyed : graph.Keyed)
    (below : walk.ancestry.Below ancestors maxDepth)
    (children : ∀ node ∈ graph.nodes, ∀ child, node.OwnGraph child → ∀ t : Walk,
      t.ancestry.Below (ancestors ++ [app]) maxDepth → Ensures (saveChild node.childApp child) t
        (fun _ => Split version (ancestors ++ [app]) maxDepth node.childApp child t)
        fun _ => BrokenOff version (ancestors ++ [app]) node.childApp child t) :
    Ensures (splitGraph version saveChild app graph ancestors.length) walk
      (fun _ => Split version ancestors maxDepth app graph walk)
      fun _ => BrokenOff version ancestors app graph walk := by
  have visited : Ensures (visit ancestors.length app) walk
      (fun _ t => t.library = walk.library ∧ t.ancestry.Below (ancestors ++ [app]) maxDepth ∧
        app ∉ ancestors ∧ ancestors.length < maxDepth)
      fun _ => BrokenOff version ancestors app graph walk :=
    ensures_visit below (fun new room t same below _ => ⟨same, below, new, room⟩)
      fun _ _ t same => ⟨[], .none same, by simp⟩
  unfold splitGraph
  refine visited.bind ?_
  rintro _ start ⟨same, below, new, room⟩
  -- what was written below the app was written since the walk began
  have since : ∀ {saves t}, Wrote version (ancestors ++ [app]) graph.Owns start saves t →
      Wrote version (ancestors ++ [app]) graph.Owns walk saves t := fun wrote =>
    Wrote.append (.none same) wrote
  refine Ensures.bind ((ensures_splitNodes keyed below children).mono (fun _ _ h => h) ?_) ?_
  · rintro _ t ⟨saves, wrote⟩
    exact ⟨saves, (since wrote).above⟩
  intro saved t nodes
  obtain ⟨saves, wrote, covers⟩ := nodes.wrote
  obtain ⟨wrote, others⟩ := (since wrote).above
  refine ensures_saveRow (fun outage => ?_) fun _ _ => ⟨saves, wrote, others⟩
  have row : Wrote version ancestors (fun k inner => (k = app ∧ inner = graph) ∨ graph.Owns k inner)
      walk (saves ++ [⟨graph, ⟨app, version, { graph with nodes := saved }⟩⟩])
      { t with library := t.library.saveAll [⟨app, version, { graph with nodes := saved }⟩] } :=
    { library := by rw [wrote.library, List.map_append, saveAll_append]; rfl
      version := List.forall_mem_append.mpr ⟨wrote.version, by simp⟩
      savedAs := List.forall_mem_append.mpr
        ⟨wrote.savedAs, List.forall_mem_singleton.mpr ⟨nodes.savedAs, rfl, rfl⟩⟩
      childrenFirst := wrote.childrenFirst.concat covers
      own := List.forall_mem_append.mpr
        ⟨fun s hs => .inr (wrote.own s hs), List.forall_mem_singleton.mpr (.inl ⟨rfl, rfl⟩)⟩
      apart := List.forall_mem_append.mpr ⟨wrote.apart, List.forall_mem_singleton.mpr new⟩ }
  refine ⟨nodes.below.above, outage, ?_, saves, _, row⟩
  have deeper : maxDepth - ancestors.length = maxDepth - (ancestors ++ [app]).length + 1 := by
    rw [List.length_append, List.length_singleton]
    omega
  rw [deeper]
  exact .intro nodes.nests

theorem ensures_splitLevel {room : Nat} {app : String} {walk : Walk} (keyed : graph.Keyed)
    (below : walk.ancestry.Below ancestors maxDepth) (enough : room + ancestors.length = maxDepth) :
    Ensures (splitLevel version room app graph ancestors.length) walk
      (fun _ => Split version ancestors maxDepth app graph walk)
      fun _ => BrokenOff version ancestors app graph walk := by
  induction room generalizing ancestors app graph walk with
  | zero =>
    refine ensures_splitGraph keyed below fun node _ child _ t _ => ?_
    exact ensures_throw ⟨[], .none rfl, by simp⟩
  | succ room ih =>
    refine ensures_splitGraph keyed below fun node _ child own t below => ?_
    have deeper : (ancestors ++ [app]).length = ancestors.length + 1 := by simp
    rw [← deeper]
    exact ih (EditorGraph.keyed_of_own own) below (by omega)

end Walks

theorem ChildrenFirst.exists_row {saves before later : List Save} (h : ChildrenFirst saves)
    {version : GraphVersion} (versions : ∀ save ∈ saves, save.row.version = version)
    (library : Library) {save : Save} (parts : saves = before ++ save :: later) {node : EditorNode}
    (mem : node ∈ save.graph.nodes) {child : EditorGraph} (own : node.OwnGraph child) :
    ((library.saveAll (before.map Save.row)).row? node.childApp version).isSome := by
  obtain ⟨earlier, hearlier, -, happ⟩ := h before save later parts node mem child own
  obtain ⟨row, -, -, -, hrow⟩ :=
    exists_row?_saveAll library (List.mem_map_of_mem (f := Save.row) hearlier)
  rw [happ, versions earlier (parts ▸ List.mem_append_left _ hearlier)] at hrow
  rw [hrow]
  rfl

theorem exists_split (library : Library) (app : String) (version : GraphVersion)
    (maxDepth : Nat) {graph : EditorGraph} (keyed : graph.Keyed) :
    ∃ walk : Walk, (library.split app version graph maxDepth).2 = walk.library ∧
      (∀ done, (library.split app version graph maxDepth).1 = .ok done →
        Split version [] maxDepth app graph ⟨{ maxDepth }, library⟩ walk) ∧
      ∀ e, (library.split app version graph maxDepth).1 = .error e →
        BrokenOff version [] app graph ⟨{ maxDepth }, library⟩ walk := by
  have below : (⟨{ maxDepth }, library⟩ : Walk).ancestry.Below [] maxDepth := Ancestry.below_start
  exact exists_walk (ensures_splitLevel keyed below (Nat.add_zero maxDepth))

/-- Whichever way splitting ends, all that it has done is a list of saves. -/
theorem exists_saves (library : Library) (app : String) (version : GraphVersion)
    (maxDepth : Nat) {graph : EditorGraph} (keyed : graph.Keyed) :
    ∃ saves walk, (library.split app version graph maxDepth).2 = walk.library ∧
      Wrote version [] (fun k inner => (k = app ∧ inner = graph) ∨ graph.Owns k inner)
        ⟨{ maxDepth }, library⟩ saves walk ∧
      ((library.split app version graph maxDepth).1 = .ok () →
        ∃ save ∈ saves, save.graph = graph ∧ save.row.appId = app) ∧
      ∀ e, (library.split app version graph maxDepth).1 = .error e →
        ∀ save ∈ saves, save.row.appId ≠ app := by
  obtain ⟨walk, after, split, brokenOff⟩ := exists_split library app version maxDepth keyed
  cases result : (library.split app version graph maxDepth).1 with
  | ok done =>
    obtain ⟨saves, saved, wrote⟩ := (split done result).wrote
    exact ⟨_, walk, after, wrote, fun _ => ⟨_, List.mem_concat_self, rfl, rfl⟩, fun _ h => nomatch h⟩
  | error e =>
    obtain ⟨saves, wrote, others⟩ := brokenOff e result
    exact ⟨saves, walk, after, wrote.mono fun _ _ owns => .inr owns, (fun h => nomatch h),
      fun _ _ => others⟩

/-- Whether splitting succeeds or fails, it saves rows of the version asked for, of the app and of
apps that own a graph inside the graph; each of them refers to rows that are there already. It
saves all of them or leaves the row of the app as it was. -/
theorem split_writes_own_rows (library : Library) (app : String) (version : GraphVersion)
    (graph : EditorGraph) (maxDepth : Nat) (keyed : graph.Keyed) :
    ∃ saves : List Save,
      (library.split app version graph maxDepth).2 = library.saveAll (saves.map Save.row) ∧
      (∀ save ∈ saves, save.row.version = version ∧
        ((save.row.appId = app ∧ save.graph = graph) ∨ graph.Owns save.row.appId save.graph) ∧
        save.graph.SavedAs save.row.graph ∧ save.row.graph.Refers) ∧
      (∀ before save later, saves = before ++ save :: later →
        ∀ node ∈ save.graph.nodes, ∀ child, node.OwnGraph child →
          ((library.saveAll (before.map Save.row)).row? node.childApp version).isSome) ∧
      (∀ k v, (library.split app version graph maxDepth).2.row? k v ≠ library.row? k v →
        v = version ∧ (k = app ∨ ∃ child, graph.Owns k child)) ∧
      ((library.split app version graph maxDepth).1 = .ok () →
        ∀ k child, (k = app ∧ child = graph) ∨ graph.Owns k child →
          ∃ save ∈ saves, save.graph = child ∧ save.row.appId = k) ∧
      ∀ e, (library.split app version graph maxDepth).1 = .error e →
        (library.split app version graph maxDepth).2.row? app version =
          library.row? app version := by
  obtain ⟨saves, walk, after, wrote, whole, part⟩ :=
    exists_saves library app version maxDepth keyed
  have after := after.trans wrote.library
  refine ⟨saves, after, fun save hsave => ?_, ?_, ?_, ?_, ?_⟩
  · have savedAs := wrote.savedAs save hsave
    exact ⟨wrote.version save hsave, wrote.own save hsave, savedAs, savedAs.refers⟩
  · intro before save later parts node mem child own
    exact wrote.childrenFirst.exists_row wrote.version library parts mem own
  · intro k v changed
    rw [after] at changed
    obtain ⟨row, hrow, rfl, rfl⟩ := exists_of_row?_ne changed
    obtain ⟨save, hsave, rfl⟩ := List.mem_map.mp hrow
    exact ⟨wrote.version save hsave,
      (wrote.own save hsave).imp And.left fun owns => ⟨save.graph, owns⟩⟩
  · intro done k child hchild
    obtain ⟨save, hsave, made, happ⟩ := whole done
    rcases hchild with ⟨rfl, rfl⟩ | owns
    · exact ⟨save, hsave, made, happ⟩
    · exact wrote.childrenFirst.owned owns hsave made
  · intro e failed
    rw [after]
    refine row?_saveAll_of_none fun row hrow => Bool.eq_false_iff.mpr fun same => ?_
    obtain ⟨save, hsave, rfl⟩ := List.mem_map.mp hrow
    exact part e failed save hsave (isRow_iff.mp same).1

/-- A graph with two graphs embedded in it, the second of which is to be the graph of the app itself. -/
def selfReferring : EditorGraph :=
  { nodes :=
      [ { id := "inner"
          data := [("payload__kind", .string "subgraph"), (EditorNode.graphKey, .object [])] },
        { id := "back"
          data := [("payload__kind", .string "subgraph"), (EditorNode.appKey, .string "outer"),
            (EditorNode.graphKey, .object [])] } ] }

/-- Splitting fails at the second graph. The row of the first has been saved, that of the app has
not. -/
theorem split_writes_own_rows_selfReferring :
    selfReferring.Keyed ∧
      (Library.split {} "outer" .draft selfReferring 8).1 = .error (.nestedCycle "outer" 1) ∧
      (Library.split {} "outer" .draft selfReferring 8).2.row? "inner" .draft =
        some ⟨"inner", .draft, {}⟩ ∧
      (Library.split {} "outer" .draft selfReferring 8).2.row? "outer" .draft = none := by
  have keyed : selfReferring.Keyed := by unfold EditorGraph.Keyed; decide
  obtain ⟨-, -, -, -, -, -, unchanged⟩ := split_writes_own_rows {} "outer" .draft selfReferring 8 keyed
  have failed : (Library.split {} "outer" .draft selfReferring 8).1 =
      .error (.nestedCycle "outer" 1) := by decide +kernel
  exact ⟨keyed, failed, by decide +kernel, unchanged _ failed⟩

end Library

end WorkflowCompiler
