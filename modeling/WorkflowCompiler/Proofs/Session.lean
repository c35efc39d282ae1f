import WorkflowCompiler.Proofs.Registry

/-!
# Sessions that grow

No step of a compile takes anything back: collaborators, options and nesting are as before after
each step, registered ids stay registered, and failures stay recorded. A step that fails for a
reason of its own leaves no node with unknown resources behind.
-/
namespace WorkflowCompiler

open Step

namespace Session

/-- A session whose registry is sound and whose failures cost only single nodes. -/
structure Sound (s : Session) : Prop where
  registry : s.registry.Sound
  failures : ∀ f ∈ s.failures, f.error.isRecoverable = true

/-- What has been there in `s` is there in `t`. -/
structure Grows (s t : Session) : Prop where
  collaborators : t.collaborators = s.collaborators
  options : t.options = s.options
  nesting : t.nesting = s.nesting
  registered : ∀ id, s.registry.contains id = true → t.registry.contains id = true
  failures : s.failures <+: t.failures
  sound : s.Sound → t.Sound

theorem Grows.refl (s : Session) : s.Grows s :=
  ⟨rfl, rfl, rfl, fun _ h => h, List.prefix_refl _, fun h => h⟩

theorem Grows.trans {s t u : Session} (h : s.Grows t) (h' : t.Grows u) : s.Grows u where
  collaborators := h'.collaborators.trans h.collaborators
  options := h'.options.trans h.options
  nesting := h'.nesting.trans h.nesting
  registered := fun id hid => h'.registered id (h.registered id hid)
  failures := h.failures.trans h'.failures
  sound := fun hs => h'.sound (h.sound hs)

/-- `t` is on the way from `s`: what has been there in `s` is there in `t`, and graphs of apps may have
been entered since, of none twice and never deeper than allowed. -/
structure Reaches (s t : Session) : Prop where
  collaborators : t.collaborators = s.collaborators
  options : t.options = s.options
  nesting : s.nesting <+: t.nesting
  distinct : s.nesting.Nodup → t.nesting.Nodup
  bounded : s.depth ≤ s.options.maxDepth → t.depth ≤ t.options.maxDepth
  registered : ∀ id, s.registry.contains id = true → t.registry.contains id = true
  failures : s.failures <+: t.failures
  sound : s.Sound → t.Sound

theorem Grows.reaches {s t : Session} (h : s.Grows t) : s.Reaches t where
  collaborators := h.collaborators
  options := h.options
  nesting := h.nesting ▸ List.prefix_refl _
  distinct := fun nodup => h.nesting ▸ nodup
  bounded := by
    unfold depth
    rw [h.nesting, h.options]
    exact id
  registered := h.registered
  failures := h.failures
  sound := h.sound

theorem Reaches.trans {s t u : Session} (h : s.Reaches t) (h' : t.Reaches u) : s.Reaches u where
  collaborators := h'.collaborators.trans h.collaborators
  options := h'.options.trans h.options
  nesting := h.nesting.trans h'.nesting
  distinct := fun nodup => h'.distinct (h.distinct nodup)
  bounded := fun bound => h'.bounded (h.bounded bound)
  registered := fun id hid => h'.registered id (h.registered id hid)
  failures := h.failures.trans h'.failures
  sound := fun hs => h'.sound (h.sound hs)

/-- An app whose graph is entered is not inside its own graph, and there is room for it. -/
theorem reaches_enter {s t : Session} {app : String} (h : s.enter app = .ok t) : s.Reaches t := by
  unfold enter at h
  split at h
  · cases h
  · next fresh =>
    split at h
    · cases h
    · next room =>
      obtain rfl := Except.ok.inj h
      refine ⟨rfl, rfl, List.prefix_append _ _, fun nodup => ?_, fun _ => ?_, fun _ hid => hid,
        List.prefix_refl _, fun sound => ⟨sound.registry, sound.failures⟩⟩
      · refine List.nodup_append.mpr ⟨nodup, List.nodup_singleton app, fun other hother x hx => ?_⟩
        obtain rfl := List.mem_singleton.mp hx
        exact fun he => fresh (List.contains_iff_mem.mpr (he ▸ hother))
      · show (s.nesting ++ [app]).length ≤ s.options.maxDepth
        unfold depth at room
        rw [List.length_append, List.length_singleton]
        omega

/-- `t` grows out of `s` and has no nodes with unknown resources but those that `s` has. -/
structure Settles (s t : Session) : Prop extends s.Grows t where
  closed : ∀ pending, s.registry.Closed pending → t.registry.Closed pending

theorem Settles.refl (s : Session) : s.Settles s := ⟨.refl s, fun _ h => h⟩

theorem Settles.trans {s t u : Session} (h : s.Settles t) (h' : t.Settles u) : s.Settles u :=
  ⟨h.toGrows.trans h'.toGrows, fun pending hs => h'.closed pending (h.closed pending hs)⟩

/-- Registering a node without members whose resources are known or pending. -/
theorem grows_register (s : Session) {node : Node} (made : node.WellMade)
    (members : node.members = []) : s.Grows (s.register node) where
  collaborators := rfl
  options := rfl
  nesting := rfl
  registered := by
    intro id h
    simp [register, Entries.contains_insert, h]
  failures := List.prefix_refl _
  sound := fun h => ⟨h.registry.insert made members, h.failures⟩

theorem settles_register (s : Session) {node : Node} (made : node.WellMade)
    (members : node.members = [])
    (known : ∀ x ∈ node.resourceIds, s.registry.contains x = true) :
    s.Settles (s.register node) :=
  ⟨s.grows_register made members, fun _ c => c.insert (fun _ hp _ => hp) (.inr known)⟩

theorem settles_recordFailure (s : Session) (id : String) {error : CompileError}
    (h : error.isRecoverable = true) : s.Settles (s.recordFailure id error) where
  collaborators := rfl
  options := rfl
  nesting := rfl
  registered := fun _ h => h
  failures := List.prefix_append _ _
  sound := by
    intro hs
    refine ⟨hs.registry, fun f hf => ?_⟩
    rcases List.mem_append.mp hf with hf | hf
    · exact hs.failures f hf
    · rw [List.mem_singleton.mp hf]
      exact h
  closed := fun _ c => c

/-- Changes to nodes that keep what they are and leave their ranks in order. -/
theorem settles_of_same {s t : Session} (collaborators : t.collaborators = s.collaborators)
    (options : t.options = s.options) (nesting : t.nesting = s.nesting)
    (failures : t.failures = s.failures) (same : s.registry.Same t.registry)
    (ranked : (∃ rank, s.registry.RankedBy rank) → ∃ rank, t.registry.RankedBy rank) :
    s.Settles t where
  collaborators := collaborators
  options := options
  nesting := nesting
  registered := fun id h => (same.contains id).trans h
  failures := failures ▸ List.prefix_refl _
  sound := fun h => ⟨h.registry.of_same same (ranked h.registry.ranked),
    failures ▸ h.failures⟩
  closed := fun _ c => c.of_same same

/-- What remains after a step that fails: all that was there, and no new node with unknown
resources when the failure concerns one node alone. -/
structure Stops (s : Session) (e : CompileError) (t : Session) : Prop where
  grows : s.Grows t
  settles : e.isRecoverable = true → s.Settles t

theorem Settles.stops {s t : Session} (h : s.Settles t) (e : CompileError) : s.Stops e t :=
  ⟨h.toGrows, fun _ => h⟩

/-- The failure of a step that ends the compile. -/
structure Aborts (s : Session) (e : CompileError) (t : Session) : Prop where
  grows : s.Grows t
  final : e.isRecoverable = false

theorem Settles.aborts {s t : Session} (h : s.Settles t) {e : CompileError}
    (final : e.isRecoverable = false) : s.Aborts e t := ⟨h.toGrows, final⟩

theorem Aborts.stops {s t : Session} {e : CompileError} (h : s.Aborts e t) : s.Stops e t :=
  ⟨h.grows, fun he => by simp [h.final] at he⟩

theorem Aborts.after {s t u : Session} {e : CompileError} (h : s.Grows t) (h' : t.Aborts e u) :
    s.Aborts e u := ⟨h.trans h'.grows, h'.final⟩

theorem Stops.after {s t u : Session} {e : CompileError} (h : s.Settles t) (h' : t.Stops e u) :
    s.Stops e u := ⟨h.toGrows.trans h'.grows, fun he => h.trans (h'.settles he)⟩

/-- A step that leaves the session in order, however it ends. -/
abbrev Behaves {α : Type} (m : Build α) (s : Session) : Prop :=
  Ensures m s (fun _ t => s.Settles t) s.Stops

theorem behaves_ofSession {α : Type} (f : Session → Except CompileError α) (s : Session) :
    Behaves (Build.ofSession f) s :=
  ensures_ofSession (fun _ _ => .refl s) fun e _ => (Settles.refl s).stops e

theorem behaves_bind {α β : Type} {m : Build α} {k : α → Build β} {s : Session}
    (first : Behaves m s) (rest : ∀ a t, Behaves (k a) t) : Behaves (m >>= k) s :=
  first.bind fun a t ht =>
    (rest a t).mono (fun _ _ hu => ht.trans hu) fun _ _ hu => hu.after ht

end Session

end WorkflowCompiler
