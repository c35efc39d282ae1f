import WorkflowCompiler.Proofs.Compile.Chains
import WorkflowCompiler.Proofs.Compile.Folding
import WorkflowCompiler.Proofs.Compile.Matching
import WorkflowCompiler.Proofs.Node.Branches

/-!
# Filling branches

The bodies of a fork that are chains are lanes between the fork and its aggregator. Folding the fork
therefore fills the branch of each case with the items of its body and leaves the branches of the
other cases empty.
-/
namespace WorkflowCompiler

open Block Wiring

namespace Route

/-- A fork holds the items of its bodies in the branches of their cases, and nothing in the branches
of cases without a body. -/
structure Branched (registry : Registry) (fork : EditorNode) (bodies : List Route) (node : Node)
    (b : Branching) : Prop where
  held : registry.get? fork.id = some node
  branching : node.body.branching? = some b
  bodied : ∀ c ∈ fork.declaredCases, ∀ body ∈ bodies, body.port = c.port →
    b.branches.get? c.key = some (body.items.map EditorNode.id)
  empty : ∀ c ∈ fork.declaredCases, c.port ∉ bodies.map port → b.branches.get? c.key = some []

/-- All forks of a route have taken their bodies in. -/
inductive Filled (registry : Registry) : Route → Prop
  | link (edge : EditorEdge) : Filled registry (.link edge)
  | step {edge : EditorEdge} {node : EditorNode} {rest : Route} (after : Filled registry rest) :
      Filled registry (.step edge node rest)
  | block {edge : EditorEdge} {fork stop : EditorNode} {bodies : List Route} {rest : Route}
      {node : Node} {b : Branching} (branched : Branched registry fork bodies node b)
      (inside : ∀ body ∈ bodies, Filled registry body) (after : Filled registry rest) :
      Filled registry (.block edge fork bodies stop rest)

/-- Changes to other nodes leave the branches of a route as they are. -/
theorem Filled.of_eq {registry registry' : Registry} {r : Route} (h : Filled registry r)
    (same : ∀ id ∈ r.ids, registry'.get? id = registry.get? id) : Filled registry' r := by
  induction h with
  | link edge => exact .link edge
  | step _ ih => exact .step (ih fun id hid => same id (List.mem_cons_of_mem _ hid))
  | @block _ fork _ _ _ _ _ branched _ _ ihBodies ih =>
    have hfork := same fork.id (mem_ids_block.mpr (.inl rfl))
    refine .block { branched with held := hfork.trans branched.held } (fun body hbody => ?_) (ih ?_)
    · exact ihBodies body hbody fun id hid =>
        same id (mem_ids_block.mpr (.inr (.inl ⟨body, hbody, hid⟩)))
    · exact fun id hid => same id (mem_ids_block.mpr (.inr (.inr (.inr hid))))

/-- The forks among these nodes are registered with the cases that they declare, and what leaves
them by the port of a case carries the key of the case. -/
structure Ready (data : EditorEdge → LinkData) (registry : Registry) (nodes : List EditorNode)
    (edges : List EditorEdge) : Prop where
  forks : ∀ raw ∈ nodes, (Node.ofEditor raw).isFork = true → ∃ node b,
    registry.get? raw.id = some node ∧ node.body.branching? = some b ∧
      b.cases = raw.declaredCases
  keys : ∀ raw ∈ nodes, (Node.ofEditor raw).isFork = true → ∀ e ∈ edges, e.source = raw.id →
    ∀ c ∈ raw.declaredCases, Branching.portOf e = c.port → (data e).key = c.key

theorem Ready.mono {data : EditorEdge → LinkData} {registry registry' : Registry}
    {nodes nodes' : List EditorNode} {edges edges' : List EditorEdge}
    (h : Ready data registry nodes edges) (hnodes : nodes' ⊆ nodes) (hedges : edges' ⊆ edges)
    (same : ∀ raw ∈ nodes', registry'.get? raw.id = registry.get? raw.id) :
    Ready data registry' nodes' edges' where
  forks := by
    intro raw hraw hfork
    rw [same raw hraw]
    exact h.forks raw (hnodes hraw) hfork
  keys := fun raw hraw hfork e he => h.keys raw (hnodes hraw) hfork e (hedges he)

/-- A fork whose bodies are chains, and what else is in the wiring. -/
structure Unfolded (data : EditorEdge → LinkData) (f : Folding) (fork stop : EditorNode)
    (bodies : List Route) (others : List Arrow) : Prop where
  nonempty : bodies ≠ []
  ports : (fork.declaredCases.map ForkCase.port).Nodup
  keys : (fork.declaredCases.map ForkCase.key).Nodup
  distinct : (bodies.map port).Nodup
  declared : ∀ body ∈ bodies, body.port ∈ fork.declaredCases.map ForkCase.port
  keyed : ∀ body ∈ bodies, ∀ c ∈ fork.declaredCases, body.port = c.port →
    (data body.first).key = c.key
  laned : f.wiring.Laned fork.id stop.id (bodies.map fun body => body.chain data fork.id) others

namespace Unfolded

variable {data : EditorEdge → LinkData} {f : Folding} {fork stop : EditorNode}
  {bodies : List Route} {others : List Arrow} (h : Unfolded data f fork stop bodies others)

include h

/-- No two bodies leave the fork with the same key. -/
theorem eq_of_key {body other : Route} (hbody : body ∈ bodies) (hother : other ∈ bodies)
    (hkey : (data other.first).key = (data body.first).key) : other = body := by
  obtain ⟨c, hc, hport⟩ := List.mem_map.mp (h.declared body hbody)
  obtain ⟨d, hd, hport'⟩ := List.mem_map.mp (h.declared other hother)
  rw [h.keyed body hbody c hc hport.symm, h.keyed other hother d hd hport'.symm] at hkey
  obtain rfl := List.inj_on_of_nodup_map h.keys hd hc hkey
  exact List.inj_on_of_nodup_map h.distinct hother hbody (hport'.symm.trans hport)

/-- Under the key of a body stand its items. -/
theorem get?_group {body : Route} (hbody : body ∈ bodies) :
    (group stop.id (f.wiring.paths fork.id stop.id)).get? (data body.first).key =
      some (body.items.map EditorNode.id) := by
  have hlane : body.chain data fork.id ∈ bodies.map fun body => body.chain data fork.id :=
    List.mem_map_of_mem hbody
  rw [chain_eq_cons data body fork.id fork.id] at hlane
  have hgroup := h.laned.get?_group hlane fun a as hl hkey => ?_
  · rw [hgroup, ← chain_eq_cons data body fork.id fork.id, passed_chain]
  · obtain ⟨other, hother, he⟩ := List.mem_map.mp hl
    rw [chain_eq_cons data other fork.id fork.id] at he
    obtain ⟨rfl, rfl⟩ := List.cons.inj he
    rw [h.eq_of_key hbody hother hkey]

theorem get?_group_of_bare {c : ForkCase} (hc : c ∈ fork.declaredCases)
    (hport : c.port ∉ bodies.map port) :
    (group stop.id (f.wiring.paths fork.id stop.id)).get? c.key = none := by
  refine h.laned.get?_group_of_not_mem fun a as hl hkey => ?_
  obtain ⟨body, hbody, he⟩ := List.mem_map.mp hl
  rw [chain_eq_cons data body fork.id fork.id] at he
  obtain ⟨rfl, -⟩ := List.cons.inj he
  obtain ⟨d, hd, hd'⟩ := List.mem_map.mp (h.declared body hbody)
  have hkey : (data body.first).key = c.key := hkey
  rw [h.keyed body hbody d hd hd'.symm] at hkey
  obtain rfl := List.inj_on_of_nodup_map h.keys hd hc hkey
  exact hport (hd' ▸ List.mem_map_of_mem hbody)

end Unfolded

/-- What is left of a fork and its bodies when they have been folded. -/
structure Folded (fork stop : EditorNode) (bodies : List Route) (arrows : List Arrow)
    (f f' : Folding) : Prop where
  valid : f'.wiring.Valid
  nodes : ∀ id, id ∈ f'.wiring.nodes ↔ id ∈ f.wiring.nodes ∧ id ≠ stop.id ∧
    ∀ body ∈ bodies, id ∉ body.items.map EditorNode.id
  arrows : f'.wiring.arrows.Perm arrows
  branched : ∃ node b, Branched f'.registry fork bodies node b
  others : ∀ id, id ≠ fork.id → f'.registry.get? id = f.registry.get? id

/-- Folding a fork whose bodies are chains takes them into its branches. -/
theorem Unfolded.fold {data : EditorEdge → LinkData} {f : Folding} {fork stop : EditorNode}
    {bodies : List Route} {out : List Arrow} {last : Arrow}
    (h : Unfolded data f fork stop bodies (out ++ [last])) (hout : ∀ a ∈ out, a.source ≠ stop.id)
    (hlast : last.source = stop.id) {node : Node} {b : Branching}
    (held : f.registry.get? fork.id = some node) (branching : node.body.branching? = some b)
    (hcases : b.cases = fork.declaredCases) :
    ∃ f', foldOne fork.id stop.id f = (.ok (), f') ∧
      Folded fork stop bodies (out ++ [{ last with source := fork.id }]) f f' := by
  have hlanes : (bodies.map fun body => body.chain data fork.id) ≠ [] := by
    simpa using h.nonempty
  obtain ⟨w, hcompress, valid, nodes, arrows⟩ := h.laned.compress hout hlast hlanes
  have hpassed : ∀ id, id ∉ passedAll (bodies.map fun body => body.chain data fork.id) ↔
      ∀ body ∈ bodies, id ∉ body.items.map EditorNode.id := by
    intro id
    rw [passedAll_chains]
    simp only [List.mem_flatMap, not_exists, not_and]
  have hkeys : (b.cases.map ForkCase.key).Nodup := hcases ▸ h.keys
  have hbranch : ∀ c ∈ fork.declaredCases,
      (b.assign (group stop.id (f.wiring.paths fork.id stop.id))).branches.get? c.key =
        some (((group stop.id (f.wiring.paths fork.id stop.id)).get? c.key).getD []) := by
    intro c hc
    unfold Branching.assign
    rw [Branching.get?_assignTo hkeys, if_pos (hcases ▸ List.mem_map_of_mem hc)]
  let bodiesOf := group stop.id (f.wiring.paths fork.id stop.id)
  have branched : Branched (assigned f fork.id stop.id) fork bodies
      (node.updateBranching fun b => b.assign bodiesOf) (b.assign bodiesOf) := by
    refine ⟨?_, ?_, ?_, ?_⟩
    · unfold assigned
      rw [Entries.get?_modify, if_pos rfl, held]
      rfl
    · unfold Node.updateBranching
      simp [branching]
    · intro c hc body hbody hport
      rw [hbranch c hc, ← h.keyed body hbody c hc hport, h.get?_group hbody]
      rfl
    · intro c hc hport
      rw [hbranch c hc, h.get?_group_of_bare hc hport]
      rfl
  refine ⟨_, foldOne_of_compress hcompress, valid, fun id => ?_, arrows, ⟨_, _, branched⟩,
    fun id hid => ?_⟩
  · rw [nodes, hpassed]
  · unfold assigned
    rw [Entries.get?_modify, if_neg hid]

end Route

end WorkflowCompiler
