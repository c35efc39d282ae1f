import WorkflowCompiler.Proofs.Compile.Unfolding
import WorkflowCompiler.Proofs.Library.Inlining
import WorkflowCompiler.Proofs.Library.Nests
import WorkflowCompiler.Proofs.Text.Case

/-!
# Inlined graphs compile to the same

Compiling a graph resolves what the graph refers to, and so does inlining it. The two agree on which
graph a node refers to, but for one thing: inside the published graph of an app, inlining goes on
with published graphs, while compiling goes back to the version that it was asked for.
-/
namespace WorkflowCompiler

theorem NodeKind.ofName?_of_mem_subgraphNames {name : String} (h : name ∈ subgraphNames) :
    ofName? name = some .subgraph := by
  have all : ∀ name ∈ subgraphNames, ofName? name = some .subgraph := by decide
  exact all name h

namespace EditorNode

theorem hasGraph_of_holdsGraph {node : EditorNode} (h : node.holdsGraph = true) : node.HasGraph :=
  NodeKind.ofName?_of_mem_subgraphNames (List.contains_iff_mem.mp h)

/-- Both ways of telling the nodes that refer to published apps agree. -/
theorem lowerKind_eq_app (node : EditorNode) :
    (Node.ofEditor node).lowerKind = "app" ↔ node.isApp = true :=
  Text.lower_eq_iff (by simp [Text.isPlain]) (by decide)

theorem appId_ofEditor (node : EditorNode) : (Node.ofEditor node).appId = node.childApp := by
  have named : (Node.ofEditor node).payloadString "patent_id" =
      ((node.data.get? appKey).bind Json.string?).filter fun id => id ≠ "" := by
    unfold Node.payloadString Node.payload
    rw [show (Node.ofEditor node).data.get? (Node.payloadKey "patent_id") = node.data.get? appKey
      from rfl]
    cases node.data.get? appKey with
    | none => rfl
    | some value => cases value <;> rfl
  rw [Node.appId, named]
  rfl

theorem Legible.embed {node : EditorNode} (h : node.Legible) (graph : EditorGraph) :
    (node.embed graph).Legible :=
  ⟨Entries.nodup_keys_insert h.data _ _, h.extra, h.beside⟩

end EditorNode

namespace Library

variable {catalog : WorkflowCatalog} {version inner : GraphVersion}

/-- What is found for a node in the version asked for is what compiling the node enters. -/
theorem embeds_of_childGraph {c : Collaborators} {o : Options}
    (workflows : c.workflows = some catalog) {node : EditorNode} (holds : node.holdsGraph = true)
    {child : EditorGraph}
    (found : childGraph catalog node (childVersion node o.version) = .ok child) :
    node.Embeds c o child := by
  have needed : c.needWorkflows = .ok catalog := by
    rw [Collaborators.needWorkflows, workflows]
    rfl
  have asked : (if (Node.ofEditor node).lowerKind = "app" then .publish else o.version) =
      childVersion node o.version := if_congr node.lowerKind_eq_app rfl rfl
  refine ⟨EditorNode.hasGraph_of_holdsGraph holds, ?_⟩
  obtain ⟨embedded, hembedded, found⟩ := bind_eq_ok.mp found
  unfold EditorNode.embedded? at hembedded
  unfold Node.nestedGraph
  rw [show (Node.ofEditor node).data.get? "config__patent_graph" =
    node.data.get? EditorNode.graphKey from rfl]
  split at hembedded
  · next hnone =>
    obtain rfl := Except.ok.inj hembedded
    obtain ⟨row, hrow, hchild⟩ := bind_eq_ok.mp found
    rw [hnone]
    dsimp only
    rw [asked, node.appId_ofEditor, needed]
    exact bind_eq_ok.mpr ⟨catalog, rfl, bind_eq_ok.mpr ⟨row, hrow, hchild⟩⟩
  · next value hvalue =>
    rw [hvalue]
    dsimp only
    split at hembedded
    · next graph hread =>
      obtain rfl := Except.ok.inj hembedded
      obtain rfl := Except.ok.inj found
      rw [hread]
      rfl
    · cases hembedded

/-- Whether all graphs that a catalog holds are ones that can be read. -/
def LegibleRows (catalog : WorkflowCatalog) : Prop :=
  ∀ app version row, catalog.workflow app version = .ok (some row) → row.graph.Legible

theorem legible_of_childGraph (rows : LegibleRows catalog) {node : EditorNode}
    {child : EditorGraph} (found : childGraph catalog node version = .ok child) :
    child.Legible := by
  obtain ⟨embedded, hembedded, found⟩ := bind_eq_ok.mp found
  cases embedded with
  | some graph =>
    obtain rfl := Except.ok.inj found
    exact EditorNode.legible_of_embedded hembedded
  | none =>
    obtain ⟨row, hrow, hchild⟩ := bind_eq_ok.mp found
    obtain rfl := Except.ok.inj hchild
    refine rows node.childApp version row ?_
    cases hanswer : catalog.workflow node.childApp version with
    | error e =>
      rw [hanswer] at hrow
      cases hrow
    | ok answer =>
      rw [hanswer] at hrow
      cases answer with
      | none => cases hrow
      | some other => rw [Except.ok.inj hrow]

theorem legible_of_inlineChildren {room level : Nat} {graph made : EditorGraph} {a b : Ancestry}
    (run : inlineChildren catalog room version level graph a = .ok (made, b))
    (legible : graph.Legible) : made.Legible := by
  obtain ⟨nodes, rfl, inlined⟩ := inlineChildren_eq_ok run
  refine ⟨fun node' hnode' => ?_, legible.edges, legible.resources⟩
  obtain ⟨node, hnode, _, _, run⟩ := exists_of_mem_right inlined hnode'
  have own := legible.nodes node hnode
  rcases inlineNode_eq_ok run with ⟨-, rfl⟩ | ⟨-, _, nested, _, -, -, -, rfl⟩
  · exact own
  · exact own.embed nested

/-- The graphs that are met inside a graph, each with the version in which what its nodes refer to is
looked up. Inside an app this is the published one. -/
inductive Meets (catalog : WorkflowCatalog) (version : GraphVersion) (graph : EditorGraph) :
    GraphVersion → EditorGraph → Prop
  | start : Meets catalog version graph version graph
  | inside {inner : GraphVersion} {around child : EditorGraph} {node : EditorNode}
      (met : Meets catalog version graph inner around) (mem : node ∈ around.nodes)
      (holds : node.holdsGraph = true)
      (found : childGraph catalog node (childVersion node inner) = .ok child) :
      Meets catalog version graph (childVersion node inner) child

/-- Whether each graph that is met is also found by looking, from where it is referred to, for the
version asked for at the outset. -/
def VersionsAgree (catalog : WorkflowCatalog) (version : GraphVersion) (graph : EditorGraph) : Prop :=
  ∀ inner around, Meets catalog version graph inner around →
    ∀ node ∈ around.nodes, node.holdsGraph = true →
      childGraph catalog node (childVersion node version) =
        childGraph catalog node (childVersion node inner)

/-- The versions agree where everything that can be met is published as it is drafted. -/
theorem versionsAgree_of_closed {graphs : List EditorGraph} {graph : EditorGraph}
    (mem : graph ∈ graphs)
    (closed : ∀ around ∈ graphs, ∀ node ∈ around.nodes, node.holdsGraph = true →
      ∃ child ∈ graphs, childGraph catalog node (childVersion node .draft) = .ok child ∧
        childGraph catalog node (childVersion node .publish) = .ok child) :
    VersionsAgree catalog version graph := by
  have all : ∀ around ∈ graphs, ∀ node ∈ around.nodes, node.holdsGraph = true →
      ∃ child ∈ graphs, ∀ inner, childGraph catalog node (childVersion node inner) = .ok child := by
    intro around haround node hnode holds
    obtain ⟨child, hchild, draft, publish⟩ := closed around haround node hnode holds
    exact ⟨child, hchild, fun inner => by cases inner <;> assumption⟩
  have inside : ∀ {inner around}, Meets catalog version graph inner around → around ∈ graphs := by
    intro inner around met
    induction met with
    | start => exact mem
    | inside _ hnode holds found ih =>
      obtain ⟨child, hchild, same⟩ := all _ ih _ hnode holds
      obtain rfl := Except.ok.inj ((same _).symm.trans found)
      exact hchild
  intro inner around met node hnode holds
  obtain ⟨child, -, same⟩ := all around (inside met) node hnode holds
  rw [same, same]

/-- A graph that is met and what comes of inlining in it, or a graph and itself. -/
inductive Inlines (catalog : WorkflowCatalog) (version : GraphVersion) (graph : EditorGraph) :
    EditorGraph → EditorGraph → Prop
  | same (around : EditorGraph) : Inlines catalog version graph around around
  | inlined {inner : GraphVersion} {around made : EditorGraph} {room level : Nat} {a b : Ancestry}
      (met : Meets catalog version graph inner around)
      (run : inlineChildren catalog room inner level around a = .ok (made, b)) :
      Inlines catalog version graph around made

/-- Where the versions agree, inlining embeds what compiling enters. -/
theorem unfolding_inlines {c : Collaborators} {o : Options}
    (workflows : c.workflows = some catalog) (rows : LegibleRows catalog) {graph : EditorGraph}
    (agree : VersionsAgree catalog o.version graph) :
    EditorGraph.Unfolding c o (Inlines catalog o.version graph) where
  refl := .same
  nodes := by
    rintro around _ (_ | ⟨met, run⟩)
    · exact List.forall₂_same.mpr fun _ _ => .same
    · obtain ⟨nodes, rfl, inlined⟩ := inlineChildren_eq_ok run
      refine (List.forall₂_iff_zip.mp inlined).elim fun same each => List.forall₂_iff_zip.mpr ⟨same, ?_⟩
      intro node node' hmem
      obtain ⟨_, _, run⟩ := each hmem
      rcases inlineNode_eq_ok run with ⟨-, rfl⟩ | ⟨holds, child, nested, _, -, found, inside, rfl⟩
      · exact .same
      obtain ⟨room, level, inside⟩ := inlineInner_eq_ok inside
      have hnode := (List.of_mem_zip hmem).1
      refine .embedded ?_ (legible_of_inlineChildren inside (legible_of_childGraph rows found))
        (.inlined (met.inside hnode holds found) inside)
      exact embeds_of_childGraph workflows holds ((agree _ around met node hnode holds).trans found)
  edges := by
    rintro around _ (_ | ⟨met, run⟩)
    · rfl
    · obtain ⟨nodes, rfl, -⟩ := inlineChildren_eq_ok run
      rfl
  resources := by
    rintro around _ (_ | ⟨met, run⟩)
    · rfl
    · obtain ⟨nodes, rfl, -⟩ := inlineChildren_eq_ok run
      rfl

/-- A graph and the graph with all inlined that it refers to compile to the same, where no published
graph of an app refers to a graph of which the version asked for is another. -/
theorem compile_inline {c : Collaborators} {o : Options} (workflows : c.workflows = some catalog)
    (rows : LegibleRows catalog) {graph : EditorGraph}
    (agree : VersionsAgree catalog o.version graph) {app : String} {maxDepth : Nat}
    {inlined : EditorGraph} (run : inline catalog app graph o.version maxDepth = .ok inlined) :
    inlined.compile c o = graph.compile c o := by
  obtain ⟨⟨made, b⟩, steps, rfl⟩ := map_eq_ok.mp run
  obtain ⟨_, a, -, inside⟩ := run_read_bind_eq_ok.mp steps
  exact (unfolding_inlines workflows rows agree).compile_eq (.inlined .start inside)

/-- A library whose graphs are read back from what is written of them is legible. -/
theorem legibleRows_of_decoded {library : Library} (decoded : ∀ row ∈ library.rows,
    (EditorGraph.decode row.graph.encode).toOption = some row.graph) :
    LegibleRows library.catalog := by
  intro _ _ row found
  have mem := List.mem_of_find?_eq_some (lookup_eq_ok.mp found).2
  exact EditorGraph.legible_of_decode (eq_ok_of_toOption (decoded row mem))

/-- A node that refers to an app. -/
def reference (id kind app : String) : EditorNode :=
  { id, data := [("type", .string kind), (EditorNode.appKey, .string app)] }

/-- A graph with one node. -/
def single (id : String) : EditorGraph :=
  { nodes := [{ id, data := [("type", .string "formatter")] }] }

/-- A published shop with parts of which there are two versions. -/
def shop (draft publish : EditorGraph) : Library :=
  .ofList
    [ ⟨"shop", .publish, { nodes := [reference "stock" "subgraph" "parts"] }⟩,
      ⟨"parts", .draft, draft⟩,
      ⟨"parts", .publish, publish⟩ ]

/-- A graph that refers to the shop as it is published, and to the parts as well. -/
def customer : EditorGraph :=
  { nodes := [reference "visit" "App" "shop", reference "repair" "warp" "parts"] }

theorem compile_inline_publishedAsDrafted :
    let library := shop (single "part") (single "part")
    let c : Collaborators := { workflows := some library.catalog }
    LegibleRows library.catalog ∧ VersionsAgree library.catalog .draft customer ∧
      ∃ inlined, inline library.catalog "customer" customer .draft 3 = .ok inlined ∧
        inlined ≠ customer ∧ inlined.compile c {} = customer.compile c {} := by
  intro library c
  have rows : LegibleRows library.catalog := legibleRows_of_decoded (by decide +kernel)
  let met := [customer, { nodes := [reference "stock" "subgraph" "parts"] }, single "part"]
  have start : customer ∈ met := List.mem_cons_self
  have agree : VersionsAgree library.catalog .draft customer :=
    versionsAgree_of_closed start (by decide +kernel)
  have differs : (inline library.catalog "customer" customer .draft 3).toOption ≠ none ∧
      (inline library.catalog "customer" customer .draft 3).toOption ≠ some customer := by
    decide +kernel
  obtain ⟨inlined, hinlined⟩ := Option.ne_none_iff_exists'.mp differs.1
  have run := eq_ok_of_toOption hinlined
  exact ⟨rows, agree, inlined, run, fun he => differs.2 (he ▸ hinlined),
    compile_inline rfl rows agree run⟩

/-- Inside the published app the compiler goes back to the draft of the parts, but inlining does
not. -/
theorem inlined_app_differs :
    let library := shop (single "drafted") (single "published")
    let c : Collaborators := { workflows := some library.catalog }
    ∃ inlined report report', inline library.catalog "customer" customer .draft 3 = .ok inlined ∧
      customer.compile c {} = .ok report ∧ inlined.compile c {} = .ok report' ∧
      report.flow ≠ report'.flow := by
  intro library c
  let flow? (graph : EditorGraph) : Option Flow := (graph.compile c {}).toOption.map Report.flow
  have differ : ((inline library.catalog "customer" customer .draft 3).toOption.bind flow?) ≠ none ∧
      flow? customer ≠ none ∧
      (inline library.catalog "customer" customer .draft 3).toOption.bind flow? ≠ flow? customer := by
    decide +kernel
  obtain ⟨flow', hflow'⟩ := Option.ne_none_iff_exists'.mp differ.1
  obtain ⟨flow, hflow⟩ := Option.ne_none_iff_exists'.mp differ.2.1
  obtain ⟨inlined, hinlined, hcompiled'⟩ := Option.bind_eq_some_iff.mp hflow'
  obtain ⟨report', hreport', rfl⟩ := Option.map_eq_some_iff.mp hcompiled'
  obtain ⟨report, hreport, rfl⟩ := Option.map_eq_some_iff.mp hflow
  refine ⟨inlined, report, report', eq_ok_of_toOption hinlined, eq_ok_of_toOption hreport,
    eq_ok_of_toOption hreport', fun he => differ.2.2 ?_⟩
  rw [hflow', hflow, he]

end Library

end WorkflowCompiler
