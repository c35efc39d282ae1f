import WorkflowCompiler.Proofs.Compile.Scanning
import WorkflowCompiler.Proofs.Compile.Sequencing
import WorkflowCompiler.Proofs.Compile.Straightening

/-!
# Folding structured graphs

The wiring of a structured graph is put in the order of its route, the blocks that are matched are
those of the route, and folding them leaves the chain of its items.
-/
namespace WorkflowCompiler

open Route

/-- What a list has in common with a part of it is the part, if nothing is repeated. -/
theorem filter_eq_of_sublist {part all : List String} (h : part.Sublist all) (nodup : all.Nodup)
    {p : String → Bool} (hp : ∀ x ∈ all, (p x = true ↔ x ∈ part)) : all.filter p = part := by
  induction h with
  | slnil => rfl
  | cons x h ih =>
    obtain ⟨hx, nodup⟩ := List.nodup_cons.mp nodup
    have hno : p x ≠ true := fun hpx => hx (h.subset ((hp x List.mem_cons_self).mp hpx))
    rw [List.filter_cons_of_neg hno]
    exact ih nodup fun y hy => hp y (List.mem_cons_of_mem _ hy)
  | @cons_cons part all x h ih =>
    obtain ⟨hx, nodup⟩ := List.nodup_cons.mp nodup
    rw [List.filter_cons_of_pos ((hp x List.mem_cons_self).mpr List.mem_cons_self)]
    refine congrArg _ (ih nodup fun y hy => (hp y (List.mem_cons_of_mem _ hy)).trans ?_)
    have hne : y ≠ x := fun he => hx (he ▸ hy)
    simp [hne]

namespace Route.Rearranged

variable {r r' : Route}

theorem chain (h : Rearranged r r') (data : EditorEdge → LinkData) (source : String) :
    r'.chain data source = r.chain data source := by
  induction h generalizing source with
  | link => rfl
  | step _ ih => rw [Route.chain, Route.chain, ih]
  | block _ _ _ _ _ ih => rw [Route.chain, Route.chain, ih]

theorem branched {registry : Registry} {fork : EditorNode} {bodies bodies' : List Route}
    {arrange : Route → Route} (inside : ∀ body ∈ bodies, Rearranged body (arrange body))
    (perm : (bodies.map arrange).Perm bodies') {node : Node} {b : Branching}
    (h : Branched registry fork bodies' node b) : Branched registry fork bodies node b where
  held := h.held
  branching := h.branching
  bodied := by
    intro c hc body hbody hport
    have hsame := inside body hbody
    rw [← hsame.items]
    refine h.bodied c hc (arrange body) (perm.mem_iff.mp (List.mem_map_of_mem hbody)) ?_
    rw [← hport, port, port, hsame.first]
  empty := by
    intro c hc hport
    refine h.empty c hc fun hin => hport ?_
    obtain ⟨body', hbody', hp⟩ := List.mem_map.mp hin
    obtain ⟨body, hbody, rfl⟩ := List.mem_map.mp (perm.mem_iff.mpr hbody')
    rw [← hp, port, (inside body hbody).first]
    exact List.mem_map_of_mem hbody

/-- In which order the bodies of a fork are listed makes no difference to its branches. -/
theorem filled {registry : Registry} (h : Rearranged r r') (filled : Filled registry r') :
    Filled registry r := by
  induction h with
  | link edge => exact .link edge
  | step _ ih =>
    cases filled with
    | step after => exact .step (ih after)
  | @block _ _ _ bodies _ _ _ arrange inside perm _ ihBodies ih =>
    cases filled with
    | block isBranched bodiesFilled after =>
      refine .block (branched inside perm isBranched) (fun body hbody => ?_) (ih after)
      exact ihBodies body hbody
        (bodiesFilled _ (perm.mem_iff.mp (List.mem_map_of_mem hbody)))

end Route.Rearranged

namespace EditorGraph.Structured

variable {graph : EditorGraph} {start stop : EditorNode} {route : Route}
  (h : graph.Structured start stop route)

include h

theorem rearranged {route' : Route} (arranged : Rearranged route route') :
    graph.Structured start stop route' where
  isStart := h.isStart
  isEnd := h.isEnd
  leads := arranged.leads h.leads
  nodes := h.nodes.trans ((arranged.nodes.append_right [stop]).cons start)
  edges := h.edges.trans arranged.edges
  distinct := h.distinct

section Wiring

variable (r : Registry)

theorem arrows_wiring : (Level.wiring r graph).arrows = graph.edges.map (Level.arrow r) :=
  Wiring.arrows_wired (Level.ends_of_edges h.ends)

theorem nodes_wiring : (Level.wiring r graph).nodes.Perm (start.id :: (route.ids ++ [stop.id])) := by
  have hmap := h.nodes.map EditorNode.id
  rw [List.map_cons, List.map_append] at hmap
  unfold Level.wiring
  rw [Wiring.nodes_wired (Level.ends_of_edges h.ends), Wiring.appendNew_eq_of_nodup h.distinct]
  exact hmap

/-- A structured graph is put in the order of its route. -/
theorem topologicalOrder (arranged : Arranged graph.edges route) :
    (Level.wiring r graph).topologicalOrder = .ok (start.id :: (route.ids ++ [stop.id])) := by
  have draws : (Level.wiring r graph).Draws graph.edges := by
    unfold Wiring.Draws
    rw [h.arrows_wiring, List.map_map]
    rfl
  exact h.within.topologicalOrder draws h.edges (h.nodes_wiring r) (Level.valid_wiring r graph) arranged

end Wiring

section Session

variable {s t : Session} (built : s.Builds graph.nodes) (re : s.Reconnects t)

include built re

theorem registers : t.registry.Registers (start :: (route.nodes ++ [stop])) := by
  intro raw hraw
  obtain ⟨old, hold, hbuilt, -⟩ := built raw (h.nodes.mem_iff.mpr hraw)
  obtain ⟨node, hnode, hbare, -⟩ := re.exists_get? hold
  exact ⟨node, hnode, (Node.lowerKind_of_bare hbare).symm.trans hbuilt.lowerKind⟩

/-- What the links of the level know of the keys of its forks is right. -/
theorem ready : Ready (fun e => (Level.arrow s.registry e).data) t.registry route.nodes route.edges := by
  have hforks : ∀ raw ∈ route.nodes, (Node.ofEditor raw).isFork = true → ∃ node b,
      s.registry.get? raw.id = some node ∧ node.body.branching? = some b ∧
        b.cases = raw.declaredCases := by
    intro raw hraw isFork
    obtain ⟨node, hnode, hbuilt, hfailed⟩ := built raw (h.nodes.mem_iff.mpr (by simp [hraw]))
    have hfork : node.isFork = (Node.ofEditor raw).isFork :=
      congrArg NodeKind.forkNames.contains hbuilt.lowerKind
    obtain ⟨b, hb⟩ := Option.isSome_iff_exists.mp
      ((hbuilt.wellMade.branching?_isSome hfailed).trans (hfork.trans isFork))
    exact ⟨node, b, hnode, hb, congrArg Branching.cases (hbuilt.branching b hb)⟩
  constructor
  · intro raw hraw isFork
    obtain ⟨old, b, hold, hb, hcases⟩ := hforks raw hraw isFork
    obtain ⟨node, hnode, hbare, -⟩ := re.exists_get? hold
    obtain ⟨c, hc, hsame⟩ := Node.branching_of_bare hbare.symm hb
    exact ⟨node, c, hnode, hc, hsame.trans hcases⟩
  · intro raw hraw isFork e he hs c hc hport
    obtain ⟨node, b, hnode, hb, hcases⟩ := hforks raw hraw isFork
    have fans := h.within.fans hraw isFork
    have hkey := Branching.keyOf?_port (hcases ▸ fans.ports) (hcases ▸ hc)
    unfold Level.arrow Level.linkData
    simp [hs, hnode, hb, hport, hkey]

theorem bundle : Bundle (fun e => (Level.arrow s.registry e).data) start.id stop.id [route] []
    ⟨t.registry, Level.wiring s.registry graph⟩ where
  distinct := by simpa using h.within.distinct
  valid := Level.valid_wiring s.registry graph
  mem := by
    intro id hid
    refine (h.nodes_wiring s.registry).mem_iff.mpr ?_
    simp only [List.mem_cons, List.flatMap_singleton] at hid
    simp only [List.mem_cons, List.mem_append, List.not_mem_nil, or_false]
    tauto
  arrows := by
    have harrows := h.leads.arrows_eq fun e => (Level.arrow s.registry e).data
    rw [List.flatMap_singleton, List.append_nil, ← harrows,
      h.arrows_wiring]
    exact h.edges.map _
  apart := by simp
  ready := by simpa using h.ready built re

/-- The blocks of a graph in the order of its route are matched and folded, and the items of the
route are left. -/
theorem folds_arranged :
    ∃ g, Block.matchAll t.registry (start.id :: (route.ids ++ [stop.id])) = .ok route.blocks ∧
      Block.foldAll route.blocks ⟨t.registry, Level.wiring s.registry graph⟩ = (.ok (), g) ∧
      Straightened (fun e => (Level.arrow s.registry e).data) start.id [route] []
        ⟨t.registry, Level.wiring s.registry graph⟩ g := by
  obtain ⟨g, run, done⟩ := h.leads.straightens (fun e => (Level.arrow s.registry e).data) start.id _ _
    (h.bundle built re)
  rw [List.flatMap_singleton] at run
  refine ⟨g, h.leads.matchAll (h.registers built re) h.isStart h.isEnd, ?_, done⟩
  rw [Block.foldAll_eq]
  exact run

omit built re in
theorem left_of_straightened {data : EditorEdge → LinkData} {r : Registry} {g : Block.Folding}
    (done : Straightened data start.id [route] [] ⟨r, Level.wiring s.registry graph⟩ g) :
    (start.id :: (route.ids ++ [stop.id])).filter g.wiring.contains =
      start.id :: (route.items.map EditorNode.id ++ [stop.id]) := by
  have hsub := (items_sublist route).map EditorNode.id
  refine filter_eq_of_sublist ((hsub.append_right [stop.id]).cons_cons start.id) h.nodup ?_
  intro id hid
  have hplaced := (h.nodes_wiring s.registry).mem_iff.mpr hid
  have hout := h.within.distinct
  simp only [List.nodup_cons, List.mem_cons, not_or] at hout
  have hkept : g.wiring.contains id = true ↔ id ∈ g.wiring.nodes := by simp [Wiring.contains]
  rw [hkept, done.nodes, List.forall_mem_singleton, and_iff_right hplaced]
  simp only [List.mem_cons, List.mem_append, List.not_mem_nil, or_false]
  constructor
  · intro hin
    obtain rfl | hid := List.mem_cons.mp hid
    · exact .inl rfl
    · exact .inr ((List.mem_append.mp hid).imp hin List.mem_singleton.mp)
  · rintro (rfl | hin | rfl) hroute
    · exact absurd hroute hout.1.2
    · exact hin
    · exact absurd hroute hout.2.1

/-- A structured graph is put in order, its blocks are matched and folded, and the items of its
route are left. -/
theorem folds :
    ∃ order blocks g, (Level.wiring s.registry graph).topologicalOrder = .ok order ∧
      Block.matchAll t.registry order = .ok blocks ∧
      Block.foldAll blocks ⟨t.registry, Level.wiring s.registry graph⟩ = (.ok (), g) ∧
      Filled g.registry route ∧
      order.filter g.wiring.contains = start.id :: (route.items.map EditorNode.id ++ [stop.id]) ∧
      g.wiring.arrows.Perm (route.chain (fun e => (Level.arrow s.registry e).data) start.id) := by
  obtain ⟨route', arranged, listed⟩ := h.within.exists_arranged
  have h' := h.rearranged arranged
  obtain ⟨g, hmatch, hfold, done⟩ := h'.folds_arranged built re
  refine ⟨_, _, g, h'.topologicalOrder s.registry listed, hmatch, hfold, ?_, ?_, ?_⟩
  · exact arranged.filled (done.filled route' List.mem_cons_self)
  · rw [h'.left_of_straightened done, arranged.items]
  · have harrows := done.arrows
    rw [List.flatMap_singleton, List.append_nil] at harrows
    rw [← arranged.chain]
    exact harrows

end Session

end EditorGraph.Structured

end WorkflowCompiler
