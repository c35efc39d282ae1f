import WorkflowCompiler.Proofs.Compile.Accepting
import WorkflowCompiler.Proofs.Compile.Arranging

/-!
# Scanning structured graphs

In a structured graph connections join nodes of the level, and those that leave a fork leave it by
declared ports, each by its own. So none of them has a fault.
-/
namespace WorkflowCompiler

open Step

/-- These nodes are registered as they were built, and none of them failed. -/
def Session.Builds (s : Session) (raws : List EditorNode) : Prop :=
  ∀ raw ∈ raws, ∃ node, s.node? raw.id = some node ∧ Node.BuiltFrom raw node ∧ node.isFailed = false

theorem Session.Builds.holds {s : Session} {raws : List EditorNode} (h : s.Builds raws) :
    s.Holds raws := by
  intro raw hraw
  obtain ⟨node, hnode, built, -⟩ := h raw hraw
  exact ⟨raw, hraw, rfl, node, hnode, built⟩

/-- What has been built is a fork only if it was declared as one, with its cases. -/
theorem Session.Builds.fork {s : Session} {raws : List EditorNode} (h : s.Builds raws)
    {raw : EditorNode} (hraw : raw ∈ raws) {fork : Node} (forks : s.Forks raw.id fork) :
    (Node.ofEditor raw).isFork = true ∧ fork.cases = raw.declaredCases := by
  obtain ⟨node, hnode, built, hfailed⟩ := h raw hraw
  obtain rfl : node = fork := Option.some.inj (hnode.symm.trans forks.there)
  have branches := (built.wellMade.branching?_isSome hfailed).trans forks.isFork
  obtain ⟨b, hb⟩ := Option.isSome_iff_exists.mp branches
  exact ⟨(congrArg NodeKind.forkNames.contains built.lowerKind).symm.trans forks.isFork,
    built.cases hb⟩

namespace EditorGraph.Structured

open Route

variable {graph : EditorGraph} {start stop : EditorNode} {route : Route}
  (h : graph.Structured start stop route)

include h

theorem nodup : (start.id :: (route.ids ++ [stop.id])).Nodup := by
  have hmap := h.nodes.map EditorNode.id
  rw [List.map_cons, List.map_append] at hmap
  exact hmap.nodup_iff.mp h.distinct

theorem within : Within graph.edges start.id stop.id route where
  leads := h.leads
  distinct := by
    have hperm : (start.id :: (route.ids ++ [stop.id])).Perm (start.id :: stop.id :: route.ids) :=
      (List.perm_append_singleton stop.id route.ids).cons _
    exact hperm.nodup_iff.mp h.nodup
  apart := ⟨[], by simpa using h.edges, by simp⟩

theorem ends : ∀ e ∈ graph.edges, e.source ∈ graph.nodes.map EditorNode.id ∧
    e.target ∈ graph.nodes.map EditorNode.id := by
  intro e he
  have hmap := h.nodes.map EditorNode.id
  rw [List.map_cons, List.map_append] at hmap
  obtain ⟨hs, ht⟩ := h.leads.ends e (h.edges.mem_iff.mp he)
  rw [hmap.mem_iff, hmap.mem_iff]
  constructor
  · exact hs.elim (fun he => he ▸ List.mem_cons_self) fun hin =>
      List.mem_cons_of_mem _ (List.mem_append_left _ hin)
  · exact ht.elim (fun he => he ▸ by simp) fun hin =>
      List.mem_cons_of_mem _ (List.mem_append_left _ hin)

/-- The forks of the graph are those of its route. -/
theorem fans {raw : EditorNode} (hraw : raw ∈ graph.nodes)
    (isFork : (Node.ofEditor raw).isFork = true) : Fans graph.edges raw := by
  have hmarker := Node.not_isMarker_of_isFork isFork
  cases List.mem_cons.mp (h.nodes.mem_iff.mp hraw) with
  | inl he => simp [Node.isMarker, he ▸ h.isStart] at hmarker
  | inr hin =>
    cases List.mem_append.mp hin with
    | inl hin => exact h.within.fans hin isFork
    | inr hin => simp [Node.isMarker, List.mem_singleton.mp hin ▸ h.isEnd] at hmarker

theorem faultless {s : Session} (built : s.Builds graph.nodes) :
    Level.Faultless s (graph.nodes.map EditorNode.id) graph.edges := by
  rintro before edge after split ⟨e, fault⟩
  have hedge : edge ∈ graph.edges := split ▸ List.mem_append_right _ List.mem_cons_self
  have hfork : ∀ fork, s.Forks edge.source fork →
      ∃ raw, raw.id = edge.source ∧ Fans graph.edges raw ∧ fork.cases = raw.declaredCases := by
    intro fork forks
    obtain ⟨raw, hraw, hid⟩ := List.mem_map.mp (h.ends edge hedge).1
    obtain ⟨isFork, hcases⟩ := built.fork hraw (hid ▸ forks)
    exact ⟨raw, hid, h.fans hraw isFork, hcases⟩
  cases fault with
  | source unknown => exact unknown (h.ends edge hedge).1
  | target _ unknown => exact unknown (h.ends edge hedge).2
  | port _ forks undeclared =>
    obtain ⟨raw, hid, fans, hcases⟩ := hfork _ forks
    exact undeclared (hcases ▸ fans.declared edge hedge hid.symm)
  | taken _ forks _ left =>
    obtain ⟨raw, hid, fans, -⟩ := hfork _ forks
    obtain ⟨other, hother⟩ := List.exists_mem_of_ne_nil _ left
    obtain ⟨hin, hleaves⟩ := List.mem_filter.mp hother
    obtain ⟨hsource, hport⟩ := of_decide_eq_true hleaves
    -- both of them are among the connections that leave the fork
    have hdistinct := fans.distinct
    rw [split, List.filter_append, List.filter_cons_of_pos (by simp [hid]), List.map_append]
      at hdistinct
    have hleft : other ∈ before.filter fun e => e.source = raw.id :=
      List.mem_filter.mpr ⟨hin, by simp [hid, hsource]⟩
    exact (List.nodup_append.mp hdistinct).2.2 _ (List.mem_map_of_mem hleft) _ List.mem_cons_self
      hport

/-- The scan of a structured graph succeeds. -/
theorem connectAll_succeeds {s : Session} (built : s.Builds graph.nodes) :
    ∃ t, Level.connectAll graph s = (.ok (Level.wiring s.registry graph), t) ∧ s.Reconnects t := by
  obtain ⟨w, t, run, -⟩ := Level.connectAll_connects built.holds (h.faultless built)
  obtain ⟨re, rfl, -⟩ := (Level.ensures_connectAll graph s).of_ok run
  exact ⟨t, run, re⟩

end EditorGraph.Structured

end WorkflowCompiler
