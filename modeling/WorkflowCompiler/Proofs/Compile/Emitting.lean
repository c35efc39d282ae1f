import WorkflowCompiler.Proofs.Compile.Filling
import WorkflowCompiler.Proofs.Compile.Reading
import WorkflowCompiler.Proofs.Node.Embedding

/-!
# Emitting routes

What is emitted for a route are the mappings of its items. Those of its forks embed what is emitted
for their bodies.
-/
namespace WorkflowCompiler

open Route

/-- The items of a route are emitted as these mappings. The branch of each case of a fork is what is
emitted for the body that leaves by its port, and nothing if there is no such body. -/
inductive Session.Emits (s : Session) : Route → List JsonObject → Prop
  | link (edge : EditorEdge) : s.Emits (.link edge) []
  | step {edge : EditorEdge} {node : EditorNode} {rest : Route} {made : Node} {fields : JsonObject}
      {entries : List JsonObject} (held : s.node? node.id = some made)
      (emitted : s.emit made = .ok fields) (named : Flattening.entryOf node.id fields = true)
      (after : s.Emits rest entries) :
      s.Emits (.step edge node rest) (fields :: entries)
  | block {edge : EditorEdge} {fork stop : EditorNode} {bodies : List Route} {rest : Route}
      {made : Node} {fields : JsonObject} {entries : List JsonObject}
      (held : s.node? fork.id = some made) (emitted : s.emit made = .ok fields)
      (named : Flattening.entryOf fork.id fields = true)
      (entriesOf : Route → List JsonObject) (inside : ∀ body ∈ bodies, s.Emits body (entriesOf body))
      (bodied : ∀ c ∈ fork.declaredCases, ∀ body ∈ bodies, body.port = c.port →
        Flow.branch? fields c.key = some ((entriesOf body).map Json.object))
      (empty : ∀ c ∈ fork.declaredCases, c.port ∉ bodies.map port →
        Flow.branch? fields c.key = some [])
      (after : s.Emits rest entries) : s.Emits (.block edge fork bodies stop rest) (fields :: entries)

/-- These nodes of the editor are registered under their ids, well made and not as stand-ins. -/
def Registry.Keeps (r : Registry) (raws : List EditorNode) : Prop :=
  ∀ raw ∈ raws, ∃ node, r.get? raw.id = some node ∧ node.id = raw.id ∧
    node.lowerKind = Text.lower raw.kind ∧ node.WellMade ∧ node.isFailed = false

theorem Registry.Keeps.mono {r : Registry} {raws more : List EditorNode} (h : r.Keeps more)
    (sub : raws ⊆ more) : r.Keeps raws := fun raw hraw => h raw (sub hraw)

/-- The kind of a node of the editor decides whether something is emitted for it, and under which id
flows know it. -/
theorem Registry.Keeps.emitted {r : Registry} {raws : List EditorNode} (h : r.Keeps raws)
    {raw : EditorNode} (hraw : raw ∈ raws) :
    ∃ node, r.get? raw.id = some node ∧ node.isStructural = (Node.ofEditor raw).isMarker ∧
      Flattening.emittedId node =
        if (Node.ofEditor raw).isStart then Flattening.entryId
        else if (Node.ofEditor raw).isEnd then Flattening.exitId else raw.id := by
  obtain ⟨node, hnode, hid, hkind, made, built⟩ := h raw hraw
  have hstart : node.isStart = (Node.ofEditor raw).isStart :=
    congrArg NodeKind.startNames.contains hkind
  have hend : node.isEnd = (Node.ofEditor raw).isEnd := congrArg NodeKind.endNames.contains hkind
  have haggregator : node.isAggregator = (Node.ofEditor raw).isAggregator :=
    congrArg NodeKind.aggregatorNames.contains hkind
  refine ⟨node, hnode, ?_, ?_⟩
  · rw [made.isStructural built, Node.isMarker, Node.isMarker, hstart, hend, haggregator]
  · rw [Flattening.emittedId, hstart, hend, hid]

namespace Route

/-- No item of a route is a start, an end or an aggregator. -/
theorem Leads.not_isMarker {source target : String} {r : Route} (h : r.Leads source target) :
    ∀ raw ∈ r.items, (Node.ofEditor raw).isMarker = false := by
  induction h with
  | link => simp [items]
  | step _ _ _ notMarker _ ih => exact List.forall_mem_cons.mpr ⟨notMarker, ih⟩
  | block _ _ isFork _ _ _ _ _ _ _ _ _ ih =>
    exact List.forall_mem_cons.mpr ⟨Node.not_isMarker_of_isFork isFork, ih⟩

/-- The items of a route are registered, something is emitted for each of them, and flows know them
by their own ids. -/
theorem Leads.visible {source target : String} {r : Route} (leads : r.Leads source target)
    {registry : Registry} (keeps : registry.Keeps r.nodes) :
    ∀ raw ∈ r.items, ∃ node, registry.get? raw.id = some node ∧ node.isStructural = false ∧
      Flattening.emittedId node = raw.id := by
  intro raw hraw
  obtain ⟨node, hnode, hstructural, hemitted⟩ := keeps.emitted ((items_sublist r).subset hraw)
  have hmarker := leads.not_isMarker raw hraw
  refine ⟨node, hnode, hstructural.trans hmarker, ?_⟩
  simp only [Node.isMarker, Bool.or_eq_false_iff] at hmarker
  simp [hemitted, hmarker]

variable {s : Session}

/-- What is emitted for a route is emitted for its items, one after the other. -/
theorem forall₂_of_emits {source target : String} {r : Route} {entries : List JsonObject}
    (h : s.Emits r entries) (leads : r.Leads source target) (keeps : s.registry.Keeps r.nodes) :
    List.Forall₂ (fun id fields => ∃ node, s.registry.get? id = some node ∧
      node.isStructural = false ∧ s.emit node = .ok fields) (r.items.map EditorNode.id) entries := by
  have hvisible : ∀ raw ∈ r.items, ∀ node, s.registry.get? raw.id = some node →
      node.isStructural = false := by
    intro raw hraw node hnode
    obtain ⟨found, hfound, visible, -⟩ := leads.visible keeps raw hraw
    obtain rfl : node = found := Option.some.inj (hnode.symm.trans hfound)
    exact visible
  clear leads keeps
  induction h with
  | link => exact .nil
  | step held emitted _ _ ih =>
    obtain ⟨first, rest⟩ := List.forall_mem_cons.mp hvisible
    exact .cons ⟨_, held, first _ held, emitted⟩ (ih rest)
  | block held emitted _ _ _ _ _ _ _ ih =>
    obtain ⟨first, rest⟩ := List.forall_mem_cons.mp hvisible
    exact .cons ⟨_, held, first _ held, emitted⟩ (ih rest)

section Filled

variable {rank : String → Nat} (ranked : s.registry.RankedBy rank)
  (supplies : ∀ id node, s.registry.get? id = some node → s.registry.Supplies node)

include ranked supplies

/-- The mapping of a node that is no start, end or aggregator is there and carries its id. -/
theorem exists_entry {raws : List EditorNode} (keeps : s.registry.Keeps raws) {raw : EditorNode}
    (hraw : raw ∈ raws) (visible : (Node.ofEditor raw).isMarker = false) :
    ∃ node fields, s.node? raw.id = some node ∧ s.emit node = .ok fields ∧
      Flattening.entryOf raw.id fields = true := by
  obtain ⟨node, hnode, hstructural, -⟩ := keeps.emitted hraw
  obtain ⟨found, hfound, hid, -, -, built⟩ := keeps raw hraw
  obtain rfl : node = found := Option.some.inj (hnode.symm.trans hfound)
  obtain ⟨fields, hfields⟩ := ranked.emit_succeeds supplies s.options.defaultEnableBackflow hnode
  have hentry := Flattening.entryOf_of_emit (hstructural.trans visible) built hfields raw.id
  exact ⟨node, fields, hnode, hfields, by simp [hentry, hid]⟩

/-- The branch of a key of a fork that has taken its bodies in is emitted. -/
theorem Branched.branch? {fork : EditorNode} {bodies : List Route} {node : Node} {b : Branching}
    (h : Branched s.registry fork bodies node b) (keeps : s.registry.Keeps [fork])
    {fields : JsonObject} (emitted : s.emit node = .ok fields) {c : ForkCase}
    (hc : c ∈ fork.declaredCases) {ids : List String} (held : b.branches.get? c.key = some ids)
    {entries : List JsonObject}
    (inside : List.Forall₂ (fun id fields => ∃ node, s.registry.get? id = some node ∧
      node.isStructural = false ∧ s.emit node = .ok fields) ids entries) :
    Flow.branch? fields c.key = some (entries.map Json.object) := by
  obtain ⟨found, hfound, -, hkind, made, built⟩ := keeps fork List.mem_cons_self
  obtain rfl : node = found := Option.some.inj (h.held.symm.trans hfound)
  have visible : node.isStructural = false := NodeBody.visible_of_branching h.branching
  obtain ⟨args, hargs, hframe⟩ := ranked.exists_args supplies s.options.defaultEnableBackflow h.held
    visible built
  obtain rfl : Registry.frame s.options.defaultEnableBackflow node args = fields :=
    Except.ok.inj (hframe.symm.trans emitted)
  refine Registry.branch?_of_args h.branching hargs held (fun htruth => ?_)
    (Registry.emitBranch_eq_ok.mpr ⟨entries, Registry.lists_of_forall₂ inside, rfl⟩)
  rw [made.kind built, hkind] at htruth
  exact key_of_ifs hc htruth

/-- When all forks of a route have taken their bodies in, the route is emitted. -/
theorem Filled.emits {source target : String} {r : Route} (leads : r.Leads source target)
    (keeps : s.registry.Keeps r.nodes) (filled : Filled s.registry r) :
    ∃ entries, s.Emits r entries := by
  induction leads with
  | link => exact ⟨[], .link _⟩
  | @step _ _ edge node rest _ _ _ notMarker _ ih =>
    cases filled with
    | step after =>
      obtain ⟨made, fields, hmade, hfields, named⟩ :=
        exists_entry ranked supplies keeps List.mem_cons_self notMarker
      obtain ⟨entries, hentries⟩ := ih (keeps.mono (List.subset_cons_self _ _)) after
      exact ⟨fields :: entries, .step hmade hfields named hentries⟩
  | @block _ _ edge fork stop bodies rest _ _ isFork _ _ _ _ _ _ inside _ ihBodies ih =>
    rw [nodes_block] at keeps
    cases filled with
    | @block _ _ _ _ _ node b branched bodiesFilled restFilled =>
      have hkeeps : ∀ body ∈ bodies, s.registry.Keeps body.nodes := fun body hbody =>
        keeps.mono fun raw hraw => List.mem_cons_of_mem _ (List.mem_append_left _
          (List.mem_flatMap.mpr ⟨body, hbody, hraw⟩))
      have heach : ∀ body, ∃ entries, body ∈ bodies → s.Emits body entries := by
        intro body
        by_cases hbody : body ∈ bodies
        · obtain ⟨entries, hentries⟩ := ihBodies body hbody (hkeeps body hbody)
            (bodiesFilled body hbody)
          exact ⟨entries, fun _ => hentries⟩
        · exact ⟨[], fun hin => absurd hin hbody⟩
      choose entriesOf hentriesOf using heach
      obtain ⟨made, fields, hmade, hfields, named⟩ := exists_entry ranked supplies keeps
        List.mem_cons_self (Node.not_isMarker_of_isFork isFork)
      obtain rfl : made = node := Option.some.inj (hmade.symm.trans branched.held)
      obtain ⟨entries, hentries⟩ := ih (keeps.mono fun raw hraw => by simp [hraw]) restFilled
      have hfork : s.registry.Keeps [fork] := keeps.mono (by simp)
      refine ⟨fields :: entries, .block hmade hfields named entriesOf hentriesOf ?_ ?_ hentries⟩
      · intro c hc body hbody hport
        refine branched.branch? ranked supplies hfork hfields hc
          (branched.bodied c hc body hbody hport) ?_
        exact forall₂_of_emits (hentriesOf body hbody) (inside body hbody) (hkeeps body hbody)
      · intro c hc hport
        exact branched.branch? ranked supplies hfork hfields hc
          (branched.empty c hc hport) .nil

end Filled

/-- The connections of a flow between the items of a route, from the id of what is before it to the
id of what is behind it. -/
def flowEdges (target : String) : Route → String → List FlowEdge
  | .link edge, source => [⟨source, target, edge.formatter.orElse fun _ => edge.label⟩]
  | .step edge node rest, source =>
      ⟨source, node.id, edge.formatter.orElse fun _ => edge.label⟩ :: rest.flowEdges target node.id
  | .block edge fork _ _ rest, source =>
      ⟨source, fork.id, edge.formatter.orElse fun _ => edge.label⟩ :: rest.flowEdges target fork.id

section Reading

open Flattening

variable {w : Wiring}

/-- Reading off an item of a chain and what follows it. -/
theorem emitNodes_item {raw : EditorNode} {node before : Node} {fields : JsonObject}
    (hnode : s.node? raw.id = some node) (visible : node.isStructural = false)
    (hid : emittedId node = raw.id) (hfields : s.emit node = .ok fields) {source : String}
    (hbefore : s.node? source = some before) {d : LinkData}
    (single : ∃ p, w.incoming raw.id = [p] ∧ p.arrow = ⟨source, raw.id, d⟩) {ids : List String}
    {nodes : List JsonObject} {edges : List FlowEdge} (rest : emitNodes s w ids = .ok (nodes, edges)) :
    emitNodes s w (raw.id :: ids) =
      .ok (fields :: nodes, ⟨emittedId before, raw.id, d.formatter⟩ :: edges) := by
  obtain ⟨p, hp, harrow⟩ := single
  obtain ⟨hsource, -, hdata⟩ := Arrow.mk.inj harrow
  have hinto := edgesInto_of_single node hp (hsource ▸ hbefore)
  rw [hid, hdata] at hinto
  have hentries : Flattening.entries s node = .ok [fields] := by
    unfold Flattening.entries
    rw [visible, hfields]
    rfl
  exact emitNodes_cons_eq_ok.mpr ⟨[fields], _, nodes, edges, ⟨node, hnode, hentries, hinto⟩, rest,
    rfl, rfl⟩

/-- A chain is read off item by item. -/
theorem emitNodes_route {data : EditorEdge → LinkData} {origin target : String} {r : Route}
    {last : Node} (hlast : s.node? target = some last) (hidden : last.isStructural = true)
    (leads : r.Leads origin target) (keeps : s.registry.Keeps r.nodes) {entries : List JsonObject}
    (emits : s.Emits r entries)
    (plain : ∀ e, e.source = origin →
      (data e).formatter = e.formatter.orElse fun _ => e.label)
    (plains : ∀ raw ∈ r.nodes, (Node.ofEditor raw).isFork = false → ∀ e, e.source = raw.id →
      (data e).formatter = e.formatter.orElse fun _ => e.label)
    {source : String} {before : Node} (hbefore : s.node? source = some before)
    (single : ∀ a ∈ r.chain data source, ∃ p, w.incoming a.target = [p] ∧ p.arrow = a) :
    emitNodes s w (r.items.map EditorNode.id ++ [target]) =
      .ok (entries, r.flowEdges (emittedId last) (emittedId before)) := by
  have hitems := leads.visible keeps
  induction leads generalizing source before entries with
  | @link _ _ edge leaves enters =>
    cases emits with
    | link =>
      obtain ⟨p, hp, harrow⟩ := single _ List.mem_cons_self
      obtain ⟨hsource, -, hdata⟩ := Arrow.mk.inj harrow
      have hinto := edgesInto_of_single last hp (hsource ▸ hbefore)
      rw [hdata, plain edge leaves, enters] at hinto
      have hentries : Flattening.entries s last = .ok [] := by
        unfold Flattening.entries
        rw [hidden]
        rfl
      exact emitNodes_cons_eq_ok.mpr ⟨[], _, [], [], ⟨last, hlast, hentries, hinto⟩, rfl, rfl, rfl⟩
  | @step _ _ edge node rest leaves enters notFork _ _ ih =>
    cases emits with
    | @step _ _ _ made fields entries held emitted _ after =>
      obtain ⟨hfirst, hrest⟩ := List.forall_mem_cons.mp hitems
      obtain ⟨found, hfound, visible, hid⟩ := hfirst
      obtain rfl : made = found := Option.some.inj (held.symm.trans hfound)
      obtain ⟨hsingle, hsingles⟩ := List.forall_mem_cons.mp single
      rw [enters] at hsingle
      have hread := ih hlast (keeps.mono (List.subset_cons_self _ _)) after
        (plains node List.mem_cons_self notFork)
        (fun raw hraw => plains raw (List.mem_cons_of_mem _ hraw)) held hsingles hrest
      rw [hid] at hread
      have hall := emitNodes_item held visible hid emitted hbefore hsingle hread
      rw [plain edge leaves] at hall
      exact hall
  | @block _ _ edge fork stop bodies rest leaves enters _ isAggregator _ _ _ _ _ _ _ _ ih =>
    cases emits with
    | @block _ _ _ _ _ made fields entries held emitted _ _ _ _ _ after =>
      rw [nodes_block] at keeps plains
      have hstop := Node.not_isFork_of_isAggregator isAggregator
      obtain ⟨hfirst, hrest⟩ := List.forall_mem_cons.mp hitems
      obtain ⟨found, hfound, visible, hid⟩ := hfirst
      obtain rfl : made = found := Option.some.inj (held.symm.trans hfound)
      obtain ⟨hsingle, hsingles⟩ := List.forall_mem_cons.mp single
      rw [enters] at hsingle
      have hread := ih hlast (keeps.mono fun raw hraw => by simp [hraw]) after
        (plains stop (by simp) hstop) (fun raw hraw => plains raw (by simp [hraw])) held hsingles hrest
      rw [hid] at hread
      have hall := emitNodes_item held visible hid emitted hbefore hsingle hread
      rw [plain edge leaves] at hall
      exact hall

end Reading

end Route

end WorkflowCompiler
