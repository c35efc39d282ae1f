import WorkflowCompiler.Proofs.Compile.Emitting
import WorkflowCompiler.Proofs.Compile.Places
import WorkflowCompiler.Proofs.Compile.Remaining
import WorkflowCompiler.Proofs.Compile.Structured

/-!
# Structured graphs compile

A structured graph whose nodes are all built compiles. Its flow has the items of its route in their
order, with the bodies of forks in the branches of their cases.
-/
namespace WorkflowCompiler

open Step Route

/-- With distinct ids, each node of a level is registered as it was built. -/
theorem Session.Holds.builds {s : Session} {raws : List EditorNode} (holds : s.Holds raws)
    (distinct : (raws.map EditorNode.id).Nodup)
    (clean : ∀ raw ∈ raws, ∀ node, s.node? raw.id = some node → node.isFailed = false) :
    s.Builds raws := by
  intro raw hraw
  obtain ⟨made, hmade, hid, node, hnode, built⟩ := holds raw hraw
  obtain rfl := List.inj_on_of_nodup_map distinct hmade hraw hid
  exact ⟨node, hnode, built, clean made hraw node hnode⟩

theorem Session.Builds.keeps {s : Session} {raws : List EditorNode} (h : s.Builds raws)
    {r : Registry} (same : s.registry.Same r) : r.Keeps raws := by
  intro raw hraw
  obtain ⟨old, hold, built, hfailed⟩ := h raw hraw
  obtain ⟨node, hnode, hbare⟩ := same.exists_get? hold
  refine ⟨node, hnode, ?_, ?_, built.wellMade.of_bare hbare.symm, ?_⟩
  · exact (Node.id_of_bare hbare).trans built.id
  · exact (Node.lowerKind_of_bare hbare).trans built.lowerKind
  · exact (Node.isFailed_of_bare hbare).trans hfailed

/-- A link that does not leave a fork carries the formatter or the label of its connection. -/
theorem Session.Builds.formatter {s : Session} {raws : List EditorNode} (h : s.Builds raws)
    {raw : EditorNode} (hraw : raw ∈ raws) (notFork : (Node.ofEditor raw).isFork = false)
    {edge : EditorEdge} (leaves : edge.source = raw.id) :
    (Level.arrow s.registry edge).data.formatter = edge.formatter.orElse fun _ => edge.label := by
  obtain ⟨node, hnode, built, -⟩ := h raw hraw
  have hfork : node.isFork = false :=
    (congrArg NodeKind.forkNames.contains built.lowerKind).trans notFork
  have hnode : s.registry.get? edge.source = some node := leaves ▸ hnode
  unfold Level.arrow Level.linkData
  simp [hnode, hfork]

namespace EditorGraph.Structured

variable {graph : EditorGraph} {start stop : EditorNode} {route : Route}
  (h : graph.Structured start stop route)

include h

/-- The ends of the graph are registered, and flows know them as entry and exit. -/
theorem ends_of_keeps {r : Registry} (keeps : r.Keeps graph.nodes) :
    (∃ node, r.get? start.id = some node ∧ node.isStructural = true ∧
      Flattening.emittedId node = Flattening.entryId) ∧
    ∃ node, r.get? stop.id = some node ∧ node.isStructural = true ∧
      Flattening.emittedId node = Flattening.exitId := by
  have hstart : start ∈ graph.nodes := h.nodes.mem_iff.mpr List.mem_cons_self
  have hstop : stop ∈ graph.nodes := h.nodes.mem_iff.mpr (by simp)
  obtain ⟨first, hfirst, structural, hentry⟩ := keeps.emitted hstart
  obtain ⟨last, hlast, structural', hexit⟩ := keeps.emitted hstop
  have hnotStart : (Node.ofEditor stop).isStart = false := Node.not_isStart_of_isEnd h.isEnd
  refine ⟨⟨first, hfirst, ?_, ?_⟩, last, hlast, ?_, ?_⟩
  · simp [structural, Node.isMarker, h.isStart]
  · rw [hentry, if_pos h.isStart]
  · simp [structural', Node.isMarker, h.isEnd]
  · rw [hexit, hnotStart, if_neg Bool.false_ne_true, if_pos h.isEnd]

/-- The chain of the route is read off as its items and the connections between them. -/
theorem emitNodes {s t : Session} (built : s.Builds graph.nodes)
    (keeps : t.registry.Keeps graph.nodes) {w : Wiring}
    (arrows : w.arrows.Perm (route.chain (fun e => (Level.arrow s.registry e).data) start.id))
    {entries : List JsonObject} (emits : t.Emits route entries) :
    Flattening.emitNodes t w (start.id :: (route.items.map EditorNode.id ++ [stop.id])) =
      .ok (entries, route.flowEdges Flattening.exitId Flattening.entryId) := by
  obtain ⟨⟨first, hfirst, hidden, hentry⟩, last, hlast, hidden', hexit⟩ := h.ends_of_keeps keeps
  have hstart : start ∈ graph.nodes := h.nodes.mem_iff.mpr List.mem_cons_self
  have hsub : route.nodes ⊆ graph.nodes := fun raw hraw => h.nodes.mem_iff.mpr (by simp [hraw])
  have htargets := h.leads.targets_chain (fun e => (Level.arrow s.registry e).data) start.id
  have hitems := (items_sublist route).map EditorNode.id
  have hnodup := h.nodup.sublist ((hitems.append_right [stop.id]).cons_cons start.id)
  rw [← htargets] at hnodup
  obtain ⟨hout, hnodup⟩ := List.nodup_cons.mp hnodup
  have hrest := emitNodes_route hlast hidden' h.leads (keeps.mono hsub) emits
    (fun e he => built.formatter hstart (Node.not_isFork_of_isMarker (by simp [Node.isMarker, h.isStart])) he)
    (fun raw hraw hfork e he => built.formatter (hsub hraw) hfork he) hfirst
    (fun a ha => Wiring.incoming_of_nodup arrows hnodup ha)
  rw [hexit, hentry] at hrest
  have hentries : Flattening.entries t first = .ok [] := by
    unfold Flattening.entries
    rw [hidden]
    rfl
  have hinto := Flattening.edgesInto_of_none (s := t) first (Wiring.incoming_eq_nil arrows hout)
  exact Flattening.emitNodes_cons_eq_ok.mpr ⟨[], [], _, _, ⟨first, hfirst, hentries, hinto⟩, hrest,
    rfl, rfl⟩

/-- A structured graph whose nodes are all built compiles: its flow has the items of the route and
the connections between them in order, and the forks embed what is emitted for their bodies. -/
theorem compiles {collaborators : Collaborators} {options : Options} {s : Session}
    (build : Level.buildAll (Level.nestedCompiler options.maxDepth) graph { collaborators, options } =
      (.ok (), s))
    (clean : ∀ raw ∈ graph.nodes, ∀ node, s.node? raw.id = some node → node.isFailed = false) :
    ∃ flow t, Session.compile graph { collaborators, options } = (.ok flow, t) ∧
      graph.compile collaborators options = .ok ⟨flow, s.failures⟩ ∧ t.Emits route flow.nodes ∧
      flow.edges = route.flowEdges Flattening.exitId Flattening.entryId := by
  have behaves := Level.behaves_nestedCompiler options.maxDepth
  have sound : Session.Sound { collaborators, options } := Session.sound_fresh collaborators options
  obtain ⟨settled, holds, -⟩ := (Level.ensures_buildAll behaves graph _).of_ok build
  have built := holds.builds h.distinct clean
  -- the connections are scanned, the blocks matched and folded
  obtain ⟨u, hconnect, re⟩ := h.connectAll_succeeds built
  obtain ⟨order, blocks, g, hsort, hmatch, hfold, filled, hleft, harrows⟩ := h.folds built re
  let t : Session := { u with registry := g.registry }
  have arrangement : Level.arrange graph s = (.ok (g.wiring, order), t) :=
    Level.arrange_eq_ok.mpr ⟨_, u, blocks, g, hconnect, hsort, hmatch, hfold, rfl, rfl⟩
  obtain ⟨arranges, same⟩ := (Level.ensures_arrange holds).of_ok arrangement
  -- the session stays in order, so all that is left is emitted
  have all := settled.trans arranges
  have closed : t.registry.Closed [] := all.closed [] (Registry.closed_nil [])
  have supplies : ∀ id node, t.registry.get? id = some node → t.registry.Supplies node :=
    fun id node hn => Registry.supplies_of_closed (all.sound sound).registry closed hn
  obtain ⟨rank, ranked⟩ := (all.sound sound).registry.ranked
  have keeps : t.registry.Keeps graph.nodes := built.keeps same
  have hsub : route.nodes ⊆ graph.nodes := fun raw hraw => h.nodes.mem_iff.mpr (by simp [hraw])
  obtain ⟨entries, emits⟩ := Filled.emits ranked supplies h.leads (keeps.mono hsub) filled
  have hread := h.emitNodes built keeps harrows emits
  obtain ⟨flow, compiled, hflow⟩ := Level.compile_succeeds behaves sound (Registry.closed_nil [])
    (Step.run_bind_eq_ok.mpr ⟨(), s, build, arrangement⟩)
  have hcompile : Session.compile graph { collaborators, options } = (.ok flow, t) := compiled
  rw [hleft, hread] at hflow
  obtain ⟨hnodes, hedges⟩ := Prod.mk.inj (Except.ok.inj hflow)
  refine ⟨flow, t, hcompile, ?_, hnodes ▸ emits, hedges.symm⟩
  unfold EditorGraph.compile
  rw [hcompile]
  exact congrArg (fun failures => Except.ok (Report.mk flow failures)) re.failures

end EditorGraph.Structured

namespace Level

/-- The route through the graph with one fork, with the empty body of the fork listed first. -/
def oneForkRoute : Route :=
  .block { source := "s", target := "f" } (bareNode "f" "ifs")
    [.link { source := "f", target := "g", sourceHandle := some "false" },
      .step { source := "f", target := "a", sourceHandle := some "true" }
        (bareNode "a" "formatter") (.link { source := "a", target := "g" })]
    (bareNode "g" "aggregator") (.link { source := "g", target := "e" })

theorem structured_oneFork : oneFork.Structured (bareNode "s" "start")
    (bareNode "e" "end") oneForkRoute where
  isStart := by decide +kernel
  isEnd := by decide +kernel
  leads := by
    refine .block rfl rfl (by decide +kernel) (by decide +kernel) (by decide +kernel)
      (by decide +kernel) (by simp) (by decide +kernel) (by decide +kernel) ?_ (.link rfl rfl)
    refine List.forall_mem_cons.mpr ⟨.link rfl rfl, List.forall_mem_singleton.mpr ?_⟩
    exact .step rfl rfl (by decide +kernel) (by decide +kernel) (.link rfl rfl)
  nodes := by decide +kernel
  edges := by decide +kernel
  distinct := by decide +kernel

theorem compiles_oneFork :
    ∃ flow t failures, Session.compile oneFork {} = (.ok flow, t) ∧
      oneFork.compile {} {} = .ok ⟨flow, failures⟩ ∧ t.Emits oneForkRoute flow.nodes ∧
      flow.edges = oneForkRoute.flowEdges Flattening.exitId Flattening.entryId := by
  have clean : ∀ raw ∈ oneFork.nodes,
      ∀ node ∈ (buildAll (nestedCompiler 16) oneFork {}).2.node? raw.id,
        node.isFailed = false := by decide +kernel
  have ok : (buildAll (nestedCompiler 16) oneFork {}).1.isOk = true := by
    decide +kernel
  cases build : buildAll (nestedCompiler 16) oneFork {} with
  | mk result s =>
    rw [build] at ok clean
    cases result with
    | error e => cases ok
    | ok =>
      have hbuild : buildAll (nestedCompiler ({} : Options).maxDepth) oneFork
          { collaborators := {}, options := {} } = (.ok (), s) := build
      have hclean : ∀ raw ∈ oneFork.nodes, ∀ node, s.node? raw.id = some node →
          node.isFailed = false := fun raw hraw node hnode => clean raw hraw node hnode
      obtain ⟨flow, t, hcompile, hreport, emits⟩ := EditorGraph.Structured.compiles structured_oneFork hbuild hclean
      exact ⟨flow, t, s.failures, hcompile, hreport, emits⟩

end Level

end WorkflowCompiler
