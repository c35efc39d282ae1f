import WorkflowCompiler.Proofs.Library.Inlining
import WorkflowCompiler.Proofs.Library.Splitting

/-!
# Splitting and inlining restore a graph

When every node that holds a graph has it embedded as its own and no two of these graphs belong to
the same app, inlining what splitting has saved gives the graph back in its normal form: every node
that holds a graph names its app and has the normal form of its graph embedded.
-/
namespace WorkflowCompiler

namespace EditorNode

/-- Whether `other` is the node with a reference to its app and with this graph embedded, but for
the order of the data. -/
structure Holding (node : EditorNode) (graph : EditorGraph) (other : EditorNode) : Prop where
  id : other.id = node.id
  extra : other.extra = node.extra
  keys : (Entries.keys other.data).Nodup
  graph : other.data.get? graphKey = some graph.encode
  app : other.data.get? appKey = some (.string node.childApp)
  others : ∀ key, key ≠ graphKey → key ≠ appKey → other.data.get? key = node.data.get? key

theorem Detached.holding {node saved : EditorNode} (h : node.Detached saved) (graph : EditorGraph) :
    node.Holding graph (saved.embed graph) where
  id := h.id
  extra := h.extra
  keys := Entries.nodup_keys_insert h.keys _ _
  graph := Entries.get?_insert_self _ _ _
  app := by rw [embed, Entries.get?_insert_of_ne _ _ (by decide), h.app]
  others key hgraph happ := by
    rw [embed, Entries.get?_insert_of_ne _ _ hgraph, h.others key hgraph happ]

end EditorNode

namespace EditorGraph

/-- Whether every node that holds a graph, at every depth, has it embedded as its own. The entries
are all these graphs under their apps, in order. -/
inductive Nest : List EditorNode → Entries EditorGraph → Prop
  | nil : Nest [] []
  | plain {node : EditorNode} {nodes : List EditorNode} {owned : Entries EditorGraph}
      (h : node.holdsGraph = false) (rest : Nest nodes owned) : Nest (node :: nodes) owned
  | own {node : EditorNode} {nodes : List EditorNode} {child : EditorGraph}
      {inside owned : Entries EditorGraph} (own : node.OwnGraph child)
      (inner : Nest child.nodes inside) (rest : Nest nodes owned) :
      Nest (node :: nodes) ((node.childApp, child) :: inside ++ owned)

/-- Whether the nodes of `normal` are `nodes` in which every node that holds a graph names its app
and has the normal form of its graph embedded. -/
inductive NormalNodes : List EditorNode → List EditorNode → Prop
  | nil : NormalNodes [] []
  | plain {node : EditorNode} {nodes normal : List EditorNode} (h : node.holdsGraph = false)
      (rest : NormalNodes nodes normal) : NormalNodes (node :: nodes) (node :: normal)
  | own {node other : EditorNode} {nodes normal inner : List EditorNode} {child : EditorGraph}
      (own : node.OwnGraph child) (nested : NormalNodes child.nodes inner)
      (holding : node.Holding { child with nodes := inner } other)
      (rest : NormalNodes nodes normal) : NormalNodes (node :: nodes) (other :: normal)

/-- Whether `normal` is a normal form of the graph. -/
structure Normal (graph normal : EditorGraph) : Prop where
  nodes : NormalNodes graph.nodes normal.nodes
  edges : normal.edges = graph.edges
  resources : normal.resources = graph.resources

namespace Nest

variable {nodes : List EditorNode} {owned : Entries EditorGraph}

theorem parts (h : Nest nodes owned) {node : EditorNode} (mem : node ∈ nodes)
    {child : EditorGraph} (own : node.OwnGraph child) :
    ∃ inside, Nest child.nodes inside ∧ (node.childApp, child) :: inside ⊆ owned := by
  induction h with
  | nil => cases mem
  | plain plain rest ih =>
    rcases List.mem_cons.mp mem with rfl | mem
    · cases own.holdsGraph.symm.trans plain
    · exact ih mem
  | own other inner rest _ ih =>
    rcases List.mem_cons.mp mem with rfl | mem
    · obtain rfl := own.unique other
      exact ⟨_, inner, List.subset_append_left _ _⟩
    · obtain ⟨inside, nest, sub⟩ := ih mem
      exact ⟨inside, nest, fun e he => List.mem_append_right _ (sub he)⟩

theorem mem_of_owns {graph child : EditorGraph} {app : String} (owns : graph.Owns app child)
    (h : Nest graph.nodes owned) : (app, child) ∈ owned := by
  induction owns generalizing owned with
  | here mem own =>
    obtain ⟨_, _, sub⟩ := h.parts mem own
    exact sub List.mem_cons_self
  | inside mem own _ ih =>
    obtain ⟨inside, nest, sub⟩ := h.parts mem own
    exact sub (List.mem_cons_of_mem _ (ih nest))

theorem owns (h : Nest nodes owned) {graph : EditorGraph} (sub : nodes ⊆ graph.nodes) :
    ∀ e ∈ owned, graph.Owns e.1 e.2 := by
  induction h generalizing graph with
  | nil => simp
  | plain _ _ ih => exact ih fun n hn => sub (List.mem_cons_of_mem _ hn)
  | own own _ _ inner rest =>
    have mem := sub List.mem_cons_self
    intro e he
    rcases List.mem_append.mp he with he | he
    · rcases List.mem_cons.mp he with rfl | he
      · exact .here mem own
      · exact .inside mem own (inner (List.Subset.refl _) e he)
    · exact rest (fun n hn => sub (List.mem_cons_of_mem _ hn)) e he

end Nest

end EditorGraph

namespace Library

open EditorGraph

section Inlining

variable {catalog : WorkflowCatalog} {version : GraphVersion} {maxDepth : Nat}

/-- Once a stored graph has been put together again, it is embedded in the node that refers to it. -/
theorem inlineNode_of_row {node first : EditorNode} {child : EditorGraph} {row : Workflow}
    (own : node.OwnGraph child) (detached : node.Detached first)
    (stored : catalog.workflow node.childApp version = .ok (some row))
    (saved : child.SavedAs row.graph) {room level : Nat} {a b c : Ancestry}
    (visited : visitOnly level node.childApp a = .ok ((), b)) {inner : List EditorNode}
    (run : row.graph.nodes.mapM (inlineNode catalog (inlineInner catalog room (level + 1)) version
      (level + 1)) b = .ok (inner, c)) :
    inlineNode catalog (inlineInner catalog (room + 1) level) version level first a =
      .ok (first.embed { child with nodes := inner }, c) := by
  have same : childVersion first version = version := by
    rw [childVersion, detached.isApp, own.isApp]
    rfl
  have found : childGraph catalog first (childVersion first version) = .ok row.graph :=
    childGraph_of_row detached.embedded? (by rw [same, detached.childApp]; exact stored)
  have nested : inlineInner catalog (room + 1) level first.childApp (childVersion first version)
      row.graph b = .ok ({ child with nodes := inner }, c) := by
    show inlineChildren catalog room _ (level + 1) row.graph b = _
    rw [same, inlineChildren_eq, inlineGraph, run_read_bind run, ← saved.edges, ← saved.resources]
    rfl
  exact run_inlineNode (detached.holdsGraph.trans own.holdsGraph) (detached.childApp ▸ visited) found
    nested

/-- The app of a node, those inside its graph and those of the other nodes all differ. -/
theorem apart_of_own {app : String} {child : EditorGraph} {inside owned : Entries EditorGraph}
    {ancestors : List String}
    (distinct : (Entries.keys ((app, child) :: inside ++ owned)).Nodup)
    (apart : ∀ a ∈ Entries.keys ((app, child) :: inside ++ owned), a ∉ ancestors) :
    app ∉ ancestors ∧
    ((Entries.keys inside).Nodup ∧ ∀ a ∈ Entries.keys inside, a ∉ ancestors ++ [app]) ∧
    (Entries.keys owned).Nodup ∧ ∀ a ∈ Entries.keys owned, a ∉ ancestors := by
  have keys : Entries.keys ((app, child) :: inside ++ owned) =
      app :: (Entries.keys inside ++ Entries.keys owned) := by simp [Entries.keys]
  rw [keys] at distinct apart
  obtain ⟨other, distinct⟩ := List.nodup_cons.mp distinct
  obtain ⟨distinctInside, distinctOwned, -⟩ := List.nodup_append.mp distinct
  obtain ⟨apartNode, apart⟩ := List.forall_mem_cons.mp apart
  obtain ⟨apartInside, apartOwned⟩ := List.forall_mem_append.mp apart
  refine ⟨apartNode, ⟨distinctInside, fun a mem hmem => ?_⟩, distinctOwned, apartOwned⟩
  rcases List.mem_append.mp hmem with hmem | hmem
  · exact apartInside a mem hmem
  · exact other (List.mem_append_left _ (List.mem_singleton.mp hmem ▸ mem))

/-- A nest is put together again from the rows of its apps, below ancestors that are none of them. -/
theorem inlineNodes_of_nest {nodes : List EditorNode} {owned : Entries EditorGraph}
    (nest : Nest nodes owned) {saved : List EditorNode}
    (savedAs : List.Forall₂ EditorNode.SavedAs nodes saved)
    (rows : ∀ e ∈ owned, ∃ row : Workflow, catalog.workflow e.1 version = .ok (some row) ∧
      e.2.SavedAs row.graph)
    (distinct : (Entries.keys owned).Nodup) {ancestors : List String}
    (apart : ∀ app ∈ Entries.keys owned, app ∉ ancestors) {room : Nat}
    (nests : ∀ node ∈ nodes, ∀ child, node.OwnGraph child → child.Nests room)
    (enough : room + ancestors.length = maxDepth) {a : Ancestry}
    (below : a.Below ancestors maxDepth) :
    ∃ inlined b, saved.mapM (inlineNode catalog (inlineInner catalog room ancestors.length) version
        ancestors.length) a = .ok (inlined, b) ∧
      b.Below ancestors maxDepth ∧ NormalNodes nodes inlined := by
  induction nest generalizing saved ancestors room a with
  | nil =>
    cases savedAs
    exact ⟨[], a, rfl, below, .nil⟩
  | plain plain _ ih =>
    obtain ⟨first, others, hfirst, hothers, rfl⟩ := List.forall₂_cons_left_iff.mp savedAs
    cases hfirst with
    | detached holds _ => cases holds.symm.trans plain
    | plain _ =>
      obtain ⟨inlined, b, run, below, normal⟩ := ih hothers rows distinct apart
        (fun n hn => nests n (List.mem_cons_of_mem _ hn)) enough below
      refine ⟨_ :: inlined, b, ?_, below, .plain plain normal⟩
      rw [List.mapM_cons, run_read_bind (inlineNode_plain plain _), run_read_bind run]
      rfl
  | @own node nodes child inside owned own _ _ ihInner ihRest =>
    obtain ⟨first, others, hfirst, hothers, rfl⟩ := List.forall₂_cons_left_iff.mp savedAs
    cases hfirst with
    | plain plain => cases own.holdsGraph.symm.trans plain
    | detached holds detached =>
      cases nests node List.mem_cons_self child own with
      | @intro room _ children =>
        obtain ⟨apartNode, ⟨distinctInside, apartInside⟩, distinctOwned, apartOwned⟩ :=
          apart_of_own distinct apart
        have deeper : (ancestors ++ [node.childApp]).length = ancestors.length + 1 := by simp
        obtain ⟨row, stored, savedRow⟩ := rows (node.childApp, child) List.mem_cons_self
        obtain ⟨b, visited, belowNode⟩ := visitOnly_below below apartNode (by omega)
        obtain ⟨inner, c, runInner, belowInner, normal⟩ := ihInner savedRow.nodes
          (fun e he => rows e (by simp [he])) distinctInside apartInside children (by omega) belowNode
        obtain ⟨inlined, d, run, below, normalRest⟩ := ihRest hothers
          (fun e he => rows e (by simp [he])) distinctOwned apartOwned
          (fun n hn => nests n (List.mem_cons_of_mem _ hn)) enough belowInner.above
        rw [deeper] at runInner
        have runNode := inlineNode_of_row own detached stored savedRow visited runInner
        refine ⟨first.embed { child with nodes := inner } :: inlined, d, ?_, below,
          .own own normal (detached.holding _) normalRest⟩
        rw [List.mapM_cons, run_read_bind runNode, run_read_bind run]
        rfl

end Inlining

/-- After a nest has been split, the library holds the row of each of its graphs. -/
theorem rows_of_split {library : Library} {app : String} {version : GraphVersion}
    {graph : EditorGraph} {maxDepth : Nat} {owned : Entries EditorGraph} (keyed : graph.Keyed)
    (nest : Nest graph.nodes owned) (distinct : (app :: Entries.keys owned).Nodup)
    (success : (library.split app version graph maxDepth).1 = .ok ()) :
    graph.Nests maxDepth ∧ ∀ e ∈ (app, graph) :: owned, ∃ row : Workflow,
      (library.split app version graph maxDepth).2.lookup e.1 version = .ok (some row) ∧
      e.2.SavedAs row.graph := by
  obtain ⟨walk, after, split, -⟩ := exists_split library app version maxDepth keyed
  have split := split () success
  obtain ⟨saves, saved, wrote⟩ := split.wrote
  refine ⟨split.nests, fun e he => ?_⟩
  have owned_or : ∀ k inner, (k = app ∧ inner = graph) ∨ graph.Owns k inner →
      (k, inner) ∈ (app, graph) :: owned := by
    rintro k inner (⟨rfl, rfl⟩ | owns)
    · exact List.mem_cons_self
    · exact List.mem_cons_of_mem _ (nest.mem_of_owns owns)
  -- the graph was saved, and nothing else was saved in the row of its app
  obtain ⟨save, hsave, happ⟩ : ∃ save ∈ saves ++ [⟨graph, ⟨app, version, saved⟩⟩],
      save.row.appId = e.1 := by
    rcases List.mem_cons.mp he with rfl | he
    · exact ⟨_, List.mem_concat_self, rfl⟩
    · obtain ⟨save, hsave, -, happ⟩ := wrote.childrenFirst.owned
        (nest.owns (List.Subset.refl _) e he) List.mem_concat_self rfl
      exact ⟨save, hsave, happ⟩
  obtain ⟨row, hrow, hsame, -, found⟩ :=
    exists_row?_saveAll library (List.mem_map_of_mem (f := Save.row) hsave)
  obtain ⟨last, hlast, rfl⟩ := List.mem_map.mp hrow
  have unique : last.graph = e.2 := by
    have keys : (Entries.keys ((app, graph) :: owned)).Nodup := distinct
    have there := Entries.get?_of_mem keys (owned_or _ _ (wrote.own last hlast))
    rw [hsame, happ, Entries.get?_of_mem keys he] at there
    exact (Option.some.inj there).symm
  rw [happ, wrote.version save hsave] at found
  refine ⟨last.row, ?_, unique ▸ wrote.savedAs last hlast⟩
  rw [after, lookup, split.outage, wrote.library]
  exact congrArg Except.ok found

/-- Inlining what splitting has saved gives a normal form of the graph. -/
theorem inline_split_normal {library : Library} {app : String} {version : GraphVersion}
    {graph : EditorGraph} {maxDepth : Nat} {owned : Entries EditorGraph} (keyed : graph.Keyed)
    (nest : Nest graph.nodes owned) (distinct : (app :: Entries.keys owned).Nodup)
    (success : (library.split app version graph maxDepth).1 = .ok ()) :
    ∃ row inlined,
      (library.split app version graph maxDepth).2.lookup app version = .ok (some row) ∧
      inline (library.split app version graph maxDepth).2.catalog app row.graph version maxDepth =
        .ok inlined ∧
      graph.Normal inlined := by
  obtain ⟨nests, rows⟩ := rows_of_split keyed nest distinct success
  obtain ⟨row, found, saved⟩ := rows (app, graph) List.mem_cons_self
  obtain ⟨other, distinct⟩ := List.nodup_cons.mp distinct
  cases nests with
  | @intro room _ children =>
    let after := (library.split app version graph (room + 1)).2
    have stored : ∀ e ∈ owned, ∃ row : Workflow,
        after.catalog.workflow e.1 version = .ok (some row) ∧ e.2.SavedAs row.graph :=
      fun e he => rows e (List.mem_cons_of_mem _ he)
    have apart : ∀ k ∈ Entries.keys owned, k ∉ [app] := fun k hk same =>
      other (List.mem_singleton.mp same ▸ hk)
    obtain ⟨a, visited, below⟩ :=
      visitOnly_below Ancestry.below_start List.not_mem_nil (Nat.succ_pos room)
    obtain ⟨nodes, b, run, -, normal⟩ :=
      inlineNodes_of_nest nest saved.nodes stored distinct apart children rfl below
    refine ⟨row, { row.graph with nodes }, found, ?_, normal, saved.edges, saved.resources⟩
    have nested : inlineChildren after.catalog room version 1 row.graph a =
        .ok ({ row.graph with nodes }, b) := by
      rw [inlineChildren_eq, inlineGraph]
      exact (run_read_bind run).trans rfl
    have run : (visitOnly 0 app >>= fun _ => inlineChildren after.catalog room version 1 row.graph)
        { maxDepth := room + 1 } = .ok ({ row.graph with nodes }, b) :=
      (run_read_bind visited).trans nested
    exact congrArg (Except.map Prod.fst) run

/-- A node with an embedded graph. -/
def holder (id : String) (graph : EditorGraph) : EditorNode :=
  { id, data := [("type", .string "loop"), (EditorNode.graphKey, graph.encode), ("title", .null)] }

/-- A graph inside a graph inside a graph, beside a node without one. -/
def threeLevels : EditorGraph :=
  { nodes := [{ id := "start" }, holder "middle" { nodes := [holder "inner" {}] }] }

theorem inline_split_normal_threeLevels :
    Nest threeLevels.nodes [("middle", { nodes := [holder "inner" {}] }), ("inner", {})] ∧
      (Library.split {} "outer" .draft threeLevels 3).1 = .ok () ∧
      ∃ row inlined,
        (Library.split {} "outer" .draft threeLevels 3).2.lookup "outer" .draft = .ok (some row) ∧
        inline (Library.split {} "outer" .draft threeLevels 3).2.catalog "outer" row.graph .draft 3 =
          .ok inlined ∧
        threeLevels.Normal inlined := by
  have middle : (holder "middle" { nodes := [holder "inner" {}] }).OwnGraph
      { nodes := [holder "inner" {}] } := ⟨by decide, by decide, by decide⟩
  have inner : (holder "inner" {}).OwnGraph {} := ⟨by decide, by decide, by decide⟩
  have nest : Nest threeLevels.nodes
      [("middle", { nodes := [holder "inner" {}] }), ("inner", {})] :=
    .plain (by decide) (.own middle (.own inner .nil .nil) .nil)
  have keyed : threeLevels.Keyed := by unfold EditorGraph.Keyed; decide
  have success : (Library.split {} "outer" .draft threeLevels 3).1 = .ok () := by decide +kernel
  exact ⟨nest, success, inline_split_normal keyed nest (by decide) success⟩

end Library

end WorkflowCompiler
