import WorkflowCompiler.Proofs.Node.Branches

/-!
# Registries during a compile

A registry is sound when each node stands under its own id, holds the body of its kind, and has
only registered nodes of lower rank in its branches. It is closed when all resources that nodes
name are registered, except for nodes that are still to be checked.
-/
namespace WorkflowCompiler

namespace Node

/-- What holds of a node however it has been connected and folded. -/
structure WellMade (node : Node) : Prop where
  body : node.isFailed = true ∨ node.body.kind? = NodeKind.ofName? node.lowerKind
  doc : ∀ r, node.body = .retriever r → r.doc ∈ node.resourceIds
  lowered : node.lowerKind = Text.lower node.kind

theorem BuiltFrom.wellMade {raw : EditorNode} {node : Node} (h : BuiltFrom raw node) :
    node.WellMade := ⟨h.body, h.doc, h.declared ▸ h.lowerKind⟩

theorem BuiltFrom.members {raw : EditorNode} {node : Node} (h : BuiltFrom raw node) :
    node.members = [] := by
  unfold Node.members
  rcases hb : node.body.branching? with _ | b
  · rfl
  · rw [h.branching b hb, Option.map_some, Option.getD_some]
    exact Branching.members_ofCases _

theorem WellMade.of_bare {a b : Node} (w : a.WellMade) (h : a.bare = b.bare) : b.WellMade where
  body := by
    rw [← isFailed_of_bare h, ← kind?_of_bare h, ← lowerKind_of_bare h]
    exact w.body
  doc := by
    intro r hr
    have hbody : a.body.bare = .retriever r := by
      rw [body_of_bare h, hr]
      rfl
    rw [← resourceIds_of_bare h]
    exact w.doc r (NodeBody.eq_retriever_of_bare hbody)
  lowered := by
    rw [← lowerKind_of_bare h, ← kind_of_bare h]
    exact w.lowered

end Node

namespace Registry

/-- The same nodes, perhaps connected and folded further. -/
def Same (r r' : Registry) : Prop := ∀ id, (r'.get? id).map Node.bare = (r.get? id).map Node.bare

theorem Same.refl (r : Registry) : Same r r := fun _ => rfl

theorem Same.trans {r r' r'' : Registry} (h : Same r r') (h' : Same r' r'') : Same r r'' :=
  fun id => (h' id).trans (h id)

theorem Same.contains {r r' : Registry} (h : Same r r') (id : String) :
    r'.contains id = r.contains id := by
  have hmap := congrArg Option.isSome (h id)
  simpa [Entries.contains] using hmap

theorem Same.exists_of_get? {r r' : Registry} (h : Same r r') {id : String} {node : Node}
    (hn : r'.get? id = some node) : ∃ old, r.get? id = some old ∧ old.bare = node.bare := by
  have hmap := h id
  rw [hn] at hmap
  exact Option.map_eq_some_iff.mp hmap.symm

theorem Same.exists_get? {r r' : Registry} (h : Same r r') {id : String} {node : Node}
    (hn : r.get? id = some node) : ∃ now, r'.get? id = some now ∧ now.bare = node.bare := by
  have hmap := h id
  rw [hn] at hmap
  exact Option.map_eq_some_iff.mp hmap

theorem same_modify {r : Registry} {id : String} {f : Node → Node}
    (h : ∀ node, r.get? id = some node → (f node).bare = node.bare) : Same r (r.modify id f) := by
  intro other
  rw [Entries.get?_modify]
  split
  · next he =>
    subst he
    rcases hn : r.get? other with _ | node
    · rfl
    · simp [h node hn]
  · rfl

/-- Branches hold registered nodes of lower rank, so no branch nests in itself. -/
def RankedBy (rank : String → Nat) (r : Registry) : Prop :=
  ∀ id node, r.get? id = some node → ∀ m ∈ node.members, r.contains m = true ∧ rank m < rank id

/-- A registry as it is at any moment of a compile. -/
structure Sound (r : Registry) : Prop where
  keyed : ∀ id node, r.get? id = some node → node.id = id
  made : ∀ id node, r.get? id = some node → node.WellMade
  ranked : ∃ rank, r.RankedBy rank

theorem Sound.of_same {r r' : Registry} (s : r.Sound) (h : Same r r')
    (ranked : ∃ rank, r'.RankedBy rank) : r'.Sound where
  keyed := by
    intro id node hn
    obtain ⟨old, hold, hb⟩ := h.exists_of_get? hn
    rw [← Node.id_of_bare hb]
    exact s.keyed id old hold
  made := by
    intro id node hn
    obtain ⟨old, hold, hb⟩ := h.exists_of_get? hn
    exact (s.made id old hold).of_bare hb
  ranked := ranked

theorem sound_nil : Sound [] where
  keyed := by simp
  made := by simp
  ranked := ⟨fun _ => 0, by simp [RankedBy]⟩

/-- A node without members can be registered at any time. -/
theorem Sound.insert {r : Registry} (s : r.Sound) {node : Node} (made : node.WellMade)
    (members : node.members = []) : Sound (Entries.insert r node.id node) where
  keyed := by
    intro id other h
    obtain ⟨rfl, rfl⟩ | ⟨-, h⟩ := Entries.get?_insert_cases h
    · rfl
    · exact s.keyed id other h
  made := by
    intro id other h
    obtain ⟨-, rfl⟩ | ⟨-, h⟩ := Entries.get?_insert_cases h
    · exact made
    · exact s.made id other h
  ranked := by
    obtain ⟨rank, hrank⟩ := s.ranked
    refine ⟨rank, fun id other h m hm => ?_⟩
    obtain ⟨-, rfl⟩ | ⟨-, h⟩ := Entries.get?_insert_cases h
    · simp [members] at hm
    · obtain ⟨hc, hlt⟩ := hrank id other h m hm
      exact ⟨by simp [Entries.contains_insert, hc], hlt⟩

/-- Every resource that a node names is registered, unless the node is still to be checked. -/
def Closed (pending : List (String × List String)) (r : Registry) : Prop :=
  ∀ id node, r.get? id = some node →
    (id, node.resourceIds) ∈ pending ∨ ∀ x ∈ node.resourceIds, r.contains x = true

theorem Closed.mono {pending pending' : List (String × List String)} {r : Registry}
    (c : r.Closed pending) (h : pending ⊆ pending') : r.Closed pending' :=
  fun id node hn => (c id node hn).imp_left fun hp => h hp

theorem Closed.of_same {pending : List (String × List String)} {r r' : Registry}
    (c : r.Closed pending) (h : Same r r') : r'.Closed pending := by
  intro id node hn
  obtain ⟨old, hold, hb⟩ := h.exists_of_get? hn
  rw [← Node.resourceIds_of_bare hb]
  refine (c id old hold).imp_right fun hall x hx => ?_
  rw [h.contains]
  exact hall x hx

theorem closed_nil (pending : List (String × List String)) : Closed pending [] := by
  simp [Closed]

/-- What is known of every other node stays known when a node is registered. -/
theorem Closed.insert {pending pending' : List (String × List String)} {r : Registry}
    (c : r.Closed pending) {node : Node} (others : ∀ p ∈ pending, p.1 ≠ node.id → p ∈ pending')
    (new : (node.id, node.resourceIds) ∈ pending' ∨
      ∀ x ∈ node.resourceIds, r.contains x = true) :
    Closed pending' (Entries.insert r node.id node) := by
  have grows : ∀ x, r.contains x = true → (Entries.insert r node.id node).contains x = true := by
    intro x hx
    simp [Entries.contains_insert, hx]
  intro id other h
  obtain ⟨rfl, rfl⟩ | ⟨he, h⟩ := Entries.get?_insert_cases h
  · exact new.imp_right fun hall x hx => grows x (hall x hx)
  · rcases c id other h with hp | hall
    · exact .inl (others _ hp he)
    · exact .inr fun x hx => grows x (hall x hx)

/-- A pending node whose resources are registered need not be pending. -/
theorem Closed.settle {pending : List (String × List String)} {r : Registry}
    {p : String × List String} (c : r.Closed (p :: pending))
    (known : ∀ x ∈ p.2, r.contains x = true) : r.Closed pending := by
  intro id node h
  rcases c id node h with hp | hall
  · rcases List.mem_cons.mp hp with rfl | hp
    · exact .inr known
    · exact .inl hp
  · exact .inr hall

end Registry

end WorkflowCompiler
