import WorkflowCompiler.Proofs.Node.Agreeing

/-!
# Dependencies of resources

A registered node depends on what it names and, when it is a fork, on what the nodes in its branches
name. The resources of a node are collected depth first, each after those that it depends on, so
that one can only come before a dependency that leads back to it.
-/
namespace WorkflowCompiler

open Relation

/-- Whether each element of a list comes after all that it depends on, but for what depends on it in
turn. -/
def DepsFirst {α : Type} (depends : α → α → Prop) (xs : List α) : Prop :=
  ∀ before x after, xs = before ++ x :: after →
    ∀ d, depends x d → d ∈ before ∨ TransGen depends d x

namespace DepsFirst

variable {α : Type} {depends : α → α → Prop}

theorem nil : DepsFirst depends [] := by
  intro before x after h
  simp at h

/-- An element can be added when what it depends on is there or depends on it. -/
theorem concat {xs : List α} (h : DepsFirst depends xs) {x : α}
    (new : ∀ d, depends x d → d ∈ xs ∨ TransGen depends d x) : DepsFirst depends (xs ++ [x]) := by
  intro before y after split d hd
  rcases List.eq_nil_or_concat after with rfl | ⟨after, last, rfl⟩
  · obtain ⟨rfl, he⟩ := List.append_inj' split rfl
    obtain rfl := (List.cons.inj he).1
    exact new d hd
  · rw [List.concat_eq_append, ← List.cons_append, ← List.append_assoc] at split
    exact h before y after (List.append_inj' split rfl).1 d hd

theorem left {xs ys : List α} (h : DepsFirst depends (xs ++ ys)) : DepsFirst depends xs := by
  rintro before x after rfl
  exact h before x (after ++ ys) (by simp)

end DepsFirst

namespace Registry

/-- Whether the registered node with an id names a resource. -/
def Names (r : Registry) (id x : String) : Prop :=
  ∃ node, r.get? id = some node ∧ x ∈ node.resourceIds

/-- Whether a node, or a node nested in its branches at any depth, names a resource. -/
def DependsOn (r : Registry) (id x : String) : Prop :=
  ∃ m, ReflTransGen r.Nests id m ∧ r.Names m x

theorem dependsOn_of_no_members {r : Registry} {id : String} {node : Node}
    (hn : r.get? id = some node) (empty : node.members = []) {x : String} :
    r.DependsOn id x ↔ x ∈ node.resourceIds := by
  refine ⟨?_, fun hx => ⟨id, .refl, node, hn, hx⟩⟩
  rintro ⟨m, hchain, found, hfound, hx⟩
  rcases hchain.cases_head with rfl | ⟨k, ⟨fork, hfork, hk⟩, -⟩
  · obtain rfl : node = found := Option.some.inj (hn.symm.trans hfound)
    exact hx
  · obtain rfl : node = fork := Option.some.inj (hn.symm.trans hfork)
    simp [empty] at hk

section Roots

variable {r : Registry} {id : String} {node : Node}

theorem dependsOn_of_mem_rootsWithin {depth : Nat} {ids : List String} (hn : r.get? id = some node)
    (h : rootsWithin r depth node = .ok ids) {x : String} (hx : x ∈ ids) : r.DependsOn id x := by
  refine rootsWithin_forall
    (fun found => ∃ m, ReflTransGen r.Nests id m ∧ r.get? m = some found) ?_ ?_
    ⟨id, .refl, hn⟩ h x hx
  · rintro found ⟨m, hm, hfound⟩ k hk child hchild
    exact ⟨k, hm.tail ⟨found, hfound, hk⟩, hchild⟩
  · rintro found ⟨m, hm, hfound⟩ y hy
    exact ⟨m, hm, found, hfound, hy⟩

theorem mem_rootsWithin_of_dependsOn {depth : Nat} {ids : List String} (hn : r.get? id = some node)
    (h : rootsWithin r depth node = .ok ids) {x : String} (hx : r.DependsOn id x) : x ∈ ids := by
  obtain ⟨m, hchain, named, hnamed, hx⟩ := hx
  -- along the chain, what a node answers for is answered for by the node that holds it
  induction hchain using ReflTransGen.head_induction_on generalizing depth node ids with
  | refl =>
    obtain rfl : node = named := Option.some.inj (hn.symm.trans hnamed)
    obtain ⟨branches, rfl, -⟩ := rootsWithin_eq_ok h
    exact List.mem_append_left _ hx
  | head nests _ ih =>
    obtain ⟨fork, hfork, hk⟩ := nests
    obtain rfl : node = fork := Option.some.inj (hn.symm.trans hfork)
    obtain ⟨branches, rfl, hbranches⟩ := rootsWithin_eq_ok h
    obtain ⟨found, hfound, child, n, hchild, -, hrun⟩ := exists_of_mem_left hbranches hk
    exact List.mem_append_right _ (List.mem_flatten.mpr ⟨found, hfound, ih hchild hrun⟩)

/-- The resources that a node answers for are those that it depends on. -/
theorem mem_roots {ids : List String} (hn : r.get? id = some node) (h : roots r node = .ok ids)
    (x : String) : x ∈ ids ↔ r.DependsOn id x :=
  ⟨dependsOn_of_mem_rootsWithin hn h, mem_rootsWithin_of_dependsOn hn h⟩

end Roots

section Collecting

variable {r : Registry} {backflow : Bool}

/-- A resource that is collected has been met before, or it is registered and collected after all
that it depends on. -/
theorem collect_eq_ok {n : Nat} {id requestedBy : String} {c c' : Collected}
    (h : collect r backflow n id requestedBy c = .ok c') :
    (id ∈ c.visited ∧ c' = c) ∨ id ∉ c.visited ∧ ∃ m resource dependencies d fields,
      n = m + 1 ∧ r.get? id = some resource ∧ roots r resource = .ok dependencies ∧
      dependencies.foldlM (fun c d => collect r backflow m d id c)
        { c with visited := id :: c.visited } = .ok d ∧
      emit r backflow resource = .ok fields ∧
      c' = { d with resolved := d.resolved ++ [(id, fields)] } := by
  rcases hvisited : c.visited.contains id with _ | _
  · refine .inr ⟨by simpa using hvisited, ?_⟩
    rcases hn : r.get? id with _ | resource
    · rw [collect_of_missing hvisited hn] at h
      cases h
    rcases n with _ | n
    · unfold collect at h
      simp only [hvisited, hn, Bool.false_eq_true, if_false] at h
      obtain ⟨-, -, h⟩ := bind_eq_ok.mp h
      obtain ⟨-, h, -⟩ := bind_eq_ok.mp h
      cases h
    · rw [collect_succ n requestedBy hvisited hn] at h
      obtain ⟨dependencies, hroots, h⟩ := bind_eq_ok.mp h
      obtain ⟨d, hd, h⟩ := bind_eq_ok.mp h
      obtain ⟨fields, hfields, h⟩ := bind_eq_ok.mp h
      exact ⟨n, resource, dependencies, d, fields, rfl, rfl, hroots, hd, hfields,
        (pure_eq_ok.mp h).symm⟩
  · rw [collect_of_visited hvisited] at h
    exact .inl ⟨by simpa using hvisited, (Except.ok.inj h).symm⟩

/-- The ids of the resources that have been emitted. -/
def Collected.ids (c : Collected) : List String := c.resolved.map Prod.fst

/-- What holds while resources are collected, `pending` being those that have been met and wait for
what they depend on. -/
structure Collected.Upholds (r : Registry) (backflow : Bool) (pending : List String)
    (c : Collected) : Prop where
  visited : ∀ x, x ∈ c.visited ↔ x ∈ c.ids ∨ x ∈ pending
  nodup : c.ids.Nodup
  apart : ∀ x ∈ pending, x ∉ c.ids
  closed : ∀ x ∈ c.ids, ∀ d, r.DependsOn x d → d ∈ c.visited
  first : DepsFirst r.DependsOn c.ids
  emits : ∀ e ∈ c.resolved, ∃ node, r.get? e.1 = some node ∧ emit r backflow node = .ok e.2

/-- What collecting these resources adds. -/
structure Collected.Adds (r : Registry) (these : List String) (c c' : Collected) : Prop where
  keeps : c.visited ⊆ c'.visited
  met : ∀ x ∈ these, x ∈ c'.visited
  reached : ∀ x ∈ c'.ids, x ∈ c.ids ∨ ∃ d ∈ these, ReflTransGen r.DependsOn d x

namespace Collected

variable {pending : List String} {id : String} {c c' : Collected}

theorem adds_nil (r : Registry) (c : Collected) : Adds r [] c c where
  keeps := List.Subset.refl _
  met := by simp
  reached := fun _ hx => .inl hx

theorem Adds.cons {d : String} {these : List String} {c₁ : Collected} (h : Adds r [d] c c₁)
    (h' : Adds r these c₁ c') : Adds r (d :: these) c c' where
  keeps := List.Subset.trans h.keeps h'.keeps
  met := List.forall_mem_cons.mpr ⟨h'.keeps (h.met d List.mem_cons_self), h'.met⟩
  reached := by
    intro x hx
    rcases h'.reached x hx with hx | ⟨y, hy, hreach⟩
    · refine (h.reached x hx).imp_right ?_
      rintro ⟨y, hy, hreach⟩
      exact ⟨d, List.mem_cons_self, List.mem_singleton.mp hy ▸ hreach⟩
    · exact .inr ⟨y, List.mem_cons_of_mem _ hy, hreach⟩

/-- Resources are collected one after the other. -/
theorem Upholds.foldlM {step : Collected → String → Except CompileError Collected}
    {these : List String}
    (each : ∀ d ∈ these, ∀ c c', c.Upholds r backflow pending → step c d = .ok c' →
      c'.Upholds r backflow pending ∧ Adds r [d] c c')
    (h : c.Upholds r backflow pending) (run : these.foldlM step c = .ok c') :
    c'.Upholds r backflow pending ∧ Adds r these c c' := by
  induction these generalizing c with
  | nil =>
    obtain rfl := pure_eq_ok.mp run
    exact ⟨h, adds_nil r c⟩
  | cons d these ih =>
    rw [List.foldlM_cons] at run
    obtain ⟨c₁, hd, run⟩ := bind_eq_ok.mp run
    obtain ⟨first, rest⟩ := List.forall_mem_cons.mp each
    obtain ⟨h₁, adds⟩ := first c c₁ h hd
    obtain ⟨h', adds'⟩ := ih rest h₁ run
    exact ⟨h', adds.cons adds'⟩

/-- A resource is met and waits for what it depends on. -/
theorem Upholds.meet (h : c.Upholds r backflow pending) (new : id ∉ c.visited) :
    ({ c with visited := id :: c.visited } : Collected).Upholds r backflow (id :: pending) where
  visited := by
    intro x
    rw [List.mem_cons, List.mem_cons, h.visited]
    show _ ↔ x ∈ c.ids ∨ _
    tauto
  nodup := h.nodup
  apart := List.forall_mem_cons.mpr ⟨fun hin => new ((h.visited id).mpr (.inl hin)), h.apart⟩
  closed := fun x hx d hd => List.mem_cons_of_mem _ (h.closed x hx d hd)
  first := h.first
  emits := h.emits

theorem ids_emit (c : Collected) (id : String) (fields : JsonObject) :
    ({ c with resolved := c.resolved ++ [(id, fields)] } : Collected).ids = c.ids ++ [id] :=
  List.map_append

/-- A resource is emitted when all that it depends on has been met. -/
theorem Upholds.emit (h : c.Upholds r backflow (id :: pending)) (new : id ∉ pending)
    {resource : Node} (hn : r.get? id = some resource) {fields : JsonObject}
    (hfields : Registry.emit r backflow resource = .ok fields)
    (met : ∀ d, r.DependsOn id d → d ∈ c.visited)
    (stack : ∀ y ∈ pending, TransGen r.DependsOn y id) :
    ({ c with resolved := c.resolved ++ [(id, fields)] } : Collected).Upholds r backflow
      pending := by
  have hids := c.ids_emit id fields
  obtain ⟨hid, hpending⟩ := List.forall_mem_cons.mp h.apart
  refine ⟨fun x => ?_, ?_, ?_, ?_, ?_, ?_⟩
  · rw [hids, h.visited, List.mem_append, List.mem_cons, List.mem_singleton]
    tauto
  · rw [hids]
    exact List.concat_eq_append ▸ h.nodup.concat hid
  · intro x hx hin
    rw [hids, List.mem_append, List.mem_singleton] at hin
    rcases hin with hin | rfl
    · exact hpending x hx hin
    · exact new hx
  · rw [hids]
    intro x hx d hd
    rcases List.mem_append.mp hx with hx | hx
    · exact h.closed x hx d hd
    · exact met d (List.mem_singleton.mp hx ▸ hd)
  · rw [hids]
    refine h.first.concat fun d hd => ?_
    rcases (h.visited d).mp (met d hd) with hin | hin
    · exact .inl hin
    · -- what still waits leads to the resource
      rcases List.mem_cons.mp hin with rfl | hin
      · exact .inr (.single hd)
      · exact .inr (stack d hin)
  · intro e he
    rcases List.mem_append.mp he with he | he
    · exact h.emits e he
    · obtain rfl := List.mem_singleton.mp he
      exact ⟨resource, hn, hfields⟩

/-- Collecting a resource that all pending ones lead to adds what it leads to. -/
theorem Upholds.collect {n : Nat} {requestedBy : String} (h : c.Upholds r backflow pending)
    (stack : ∀ y ∈ pending, TransGen r.DependsOn y id)
    (run : Registry.collect r backflow n id requestedBy c = .ok c') :
    c'.Upholds r backflow pending ∧ Adds r [id] c c' := by
  induction n using Nat.strong_induction_on generalizing id requestedBy pending c c' with
  | _ n ih =>
    obtain ⟨hvisited, rfl⟩ | ⟨new, m, resource, dependencies, d, fields, rfl, hn, hroots, hd,
      hfields, rfl⟩ := collect_eq_ok run
    · exact ⟨h, List.Subset.refl _, by simpa using hvisited, fun _ hx => .inl hx⟩
    · have depends : ∀ x, x ∈ dependencies ↔ r.DependsOn id x := mem_roots hn hroots
      have waits : id ∉ pending := fun hin => new ((h.visited id).mpr (.inr hin))
      have stack' : ∀ x ∈ dependencies, ∀ y ∈ id :: pending, TransGen r.DependsOn y x := by
        intro x hx
        have hlast := (depends x).mp hx
        exact List.forall_mem_cons.mpr ⟨.single hlast, fun y hy => (stack y hy).tail hlast⟩
      obtain ⟨hd', adds⟩ := (h.meet new).foldlM
        (fun x hx c₁ c₂ h₁ run => ih m (Nat.lt_succ_self m) h₁ (stack' x hx) run) hd
      refine ⟨hd'.emit waits hn hfields (fun x hx => adds.met x ((depends x).mpr hx)) stack, ?_, ?_,
        ?_⟩
      · exact fun x hx => adds.keeps (List.mem_cons_of_mem _ hx)
      · exact List.forall_mem_singleton.mpr (adds.keeps List.mem_cons_self)
      · intro x hx
        rw [ids_emit, List.mem_append, List.mem_singleton] at hx
        rcases hx with hx | rfl
        · refine (adds.reached x hx).imp_right ?_
          rintro ⟨y, hy, hreach⟩
          exact ⟨id, List.mem_singleton_self id, .head ((depends y).mp hy) hreach⟩
        · exact .inr ⟨x, List.mem_singleton_self x, .refl⟩

end Collected

/-- The resources of a node: all that it leads to, each once and after what it depends on. -/
structure Resolves (r : Registry) (backflow : Bool) (id : String)
    (entries : List (String × JsonObject)) : Prop where
  nodup : (entries.map Prod.fst).Nodup
  mem : ∀ x, x ∈ entries.map Prod.fst ↔ TransGen r.DependsOn id x
  first : DepsFirst r.DependsOn (entries.map Prod.fst)
  emits : ∀ e ∈ entries, ∃ node, r.get? e.1 = some node ∧ emit r backflow node = .ok e.2

theorem resolves_of_resourcesOf {id : String} {node : Node} (hn : r.get? id = some node)
    {entries : List (String × JsonObject)} (h : resourcesOf r backflow node = .ok entries) :
    Resolves r backflow id entries := by
  obtain ⟨ids, hids, h⟩ := bind_eq_ok.mp h
  obtain ⟨c, hc, h⟩ := bind_eq_ok.mp h
  obtain rfl := pure_eq_ok.mp h
  have start : ({} : Collected).Upholds r backflow [] :=
    ⟨by simp [Collected.ids], .nil, by simp, by simp [Collected.ids], .nil, by simp⟩
  obtain ⟨upholds, adds⟩ := start.foldlM
    (fun x _ c₁ c₂ h₁ run => h₁.collect (by simp) run) hc
  have depends : ∀ x, x ∈ ids ↔ r.DependsOn id x := mem_roots hn hids
  have visited : ∀ x, x ∈ c.visited → x ∈ c.ids := fun x hx => by
    simpa using (upholds.visited x).mp hx
  refine ⟨upholds.nodup, fun x => ⟨fun hx => ?_, fun hx => ?_⟩, upholds.first, upholds.emits⟩
  · obtain ⟨d, hd, hreach⟩ := (adds.reached x hx).resolve_left (by simp [Collected.ids])
    exact .head' ((depends d).mp hd) hreach
  · induction hx with
    | single hx => exact visited _ (adds.met _ ((depends _).mpr hx))
    | tail _ hx ih => exact visited _ (upholds.closed _ ih _ hx)

end Collecting

end Registry

end WorkflowCompiler
