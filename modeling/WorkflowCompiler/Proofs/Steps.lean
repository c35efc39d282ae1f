import WorkflowCompiler.Compile.Level
import WorkflowCompiler.Proofs.Results

/-!
# Outcomes of steps

A step turns a state into a result and a new state, and what it did to the state stays done when it
fails. An outcome therefore says two things: what holds after success and what holds after failure.
-/
namespace WorkflowCompiler

/-- A step over states of type `σ`. Building and folding consist of such steps. -/
abbrev Step (σ α : Type) := ExceptT CompileError (StateM σ) α

namespace Step

variable {σ α β : Type}

theorem run_bind (m : Step σ α) (k : α → Step σ β) (s : σ) :
    (m >>= k) s = match m s with
      | (.ok a, t) => k a t
      | (.error e, t) => (.error e, t) := by
  show (match m s with | (a, t) => ExceptT.bindCont k a t) = _
  rcases m s with ⟨_ | _, t⟩ <;> rfl

theorem run_bind_eq_ok {m : Step σ α} {k : α → Step σ β} {s u : σ} {b : β} :
    (m >>= k) s = (.ok b, u) ↔ ∃ a t, m s = (.ok a, t) ∧ k a t = (.ok b, u) := by
  rw [run_bind]
  rcases m s with ⟨e | a, t⟩
  · constructor
    · intro h
      cases h
    · rintro ⟨a, t', h, -⟩
      cases h
  · constructor
    · exact fun h => ⟨a, t, rfl, h⟩
    · rintro ⟨a', t', h, hk⟩
      obtain ⟨ha, rfl⟩ := Prod.mk.inj h
      obtain rfl := Except.ok.inj ha
      exact hk

/-- A list of steps succeeds when its parts succeed one after the other. -/
theorem run_mapM_append_eq_ok {f : α → Step σ β} {xs ys : List α} {s u : σ} {bs : List β} :
    ((xs ++ ys).mapM f) s = (.ok bs, u) ↔
      ∃ cs ds t, (xs.mapM f) s = (.ok cs, t) ∧ (ys.mapM f) t = (.ok ds, u) ∧ bs = cs ++ ds := by
  rw [List.mapM_append, run_bind_eq_ok]
  constructor
  · rintro ⟨cs, t, hcs, h⟩
    obtain ⟨ds, v, hds, h⟩ := run_bind_eq_ok.mp h
    obtain ⟨hbs, rfl⟩ := Prod.mk.inj h
    exact ⟨cs, ds, t, hcs, hds, (Except.ok.inj hbs).symm⟩
  · rintro ⟨cs, ds, t, hcs, hds, rfl⟩
    exact ⟨cs, t, hcs, run_bind_eq_ok.mpr ⟨ds, u, hds, rfl⟩⟩

theorem run_mapM_cons_eq_ok {f : α → Step σ β} {x : α} {xs : List α} {s u : σ} {bs : List β} :
    ((x :: xs).mapM f) s = (.ok bs, u) ↔
      ∃ c cs t, f x s = (.ok c, t) ∧ (xs.mapM f) t = (.ok cs, u) ∧ bs = c :: cs := by
  rw [List.mapM_cons, run_bind_eq_ok]
  constructor
  · rintro ⟨c, t, hc, h⟩
    obtain ⟨cs, v, hcs, h⟩ := run_bind_eq_ok.mp h
    obtain ⟨hbs, rfl⟩ := Prod.mk.inj h
    exact ⟨c, cs, t, hc, hcs, (Except.ok.inj hbs).symm⟩
  · rintro ⟨c, cs, t, hc, hcs, rfl⟩
    exact ⟨c, t, hc, run_bind_eq_ok.mpr ⟨cs, u, hcs, rfl⟩⟩

@[simp] theorem run_pure (a : α) (s : σ) : (pure a : Step σ α) s = (.ok a, s) := rfl

@[simp] theorem run_throw (e : CompileError) (s : σ) :
    (throw e : Step σ α) s = (.error e, s) := rfl

@[simp] theorem run_lift (x : Except CompileError α) (s : σ) :
    (liftM x : Step σ α) s = (x, s) := rfl

@[simp] theorem run_get (s : σ) : (get : Step σ σ) s = (.ok s, s) := rfl

@[simp] theorem run_modify (f : σ → σ) (s : σ) :
    (modify f : Step σ Unit) s = (.ok (), f s) := rfl

@[simp] theorem run_ofSession (f : Session → Except CompileError α) (s : Session) :
    Build.ofSession f s = (f s, s) := rfl

/-- From `s`, the step ends in `done` when it succeeds and in `failed` when it fails. -/
def Ensures (m : Step σ α) (s : σ) (done : α → σ → Prop) (failed : CompileError → σ → Prop) :
    Prop :=
  match m s with
  | (.ok a, t) => done a t
  | (.error e, t) => failed e t

variable {m : Step σ α} {s : σ} {done : α → σ → Prop} {failed : CompileError → σ → Prop}

theorem Ensures.of_ok (h : Ensures m s done failed) {a : α} {t : σ} (run : m s = (.ok a, t)) :
    done a t := by
  simpa [Ensures, run] using h

theorem Ensures.of_error (h : Ensures m s done failed) {e : CompileError} {t : σ}
    (run : m s = (.error e, t)) : failed e t := by
  simpa [Ensures, run] using h

theorem ensures_of_run (ok : ∀ a t, m s = (.ok a, t) → done a t)
    (error : ∀ e t, m s = (.error e, t) → failed e t) : Ensures m s done failed := by
  unfold Ensures
  split
  · next h => exact ok _ _ h
  · next h => exact error _ _ h

theorem Ensures.mono (h : Ensures m s done failed) {done' : α → σ → Prop}
    {failed' : CompileError → σ → Prop} (ok : ∀ a t, done a t → done' a t)
    (error : ∀ e t, failed e t → failed' e t) : Ensures m s done' failed' :=
  ensures_of_run (fun a t run => ok a t (h.of_ok run)) fun e t run => error e t (h.of_error run)

theorem Ensures.and {done' : α → σ → Prop} {failed' : CompileError → σ → Prop}
    (h : Ensures m s done failed) (h' : Ensures m s done' failed') :
    Ensures m s (fun a t => done a t ∧ done' a t) fun e t => failed e t ∧ failed' e t :=
  ensures_of_run (fun _ _ run => ⟨h.of_ok run, h'.of_ok run⟩) fun _ _ run =>
    ⟨h.of_error run, h'.of_error run⟩

theorem ensures_of_ok {a : α} {t : σ} (run : m s = (.ok a, t)) (h : done a t) :
    Ensures m s done failed := by
  unfold Ensures
  rw [run]
  exact h

theorem ensures_of_error {e : CompileError} {t : σ} (run : m s = (.error e, t)) (h : failed e t) :
    Ensures m s done failed := by
  unfold Ensures
  rw [run]
  exact h

theorem ensures_pure {a : α} (h : done a s) : Ensures (pure a : Step σ α) s done failed := h

theorem ensures_throw {e : CompileError} (h : failed e s) :
    Ensures (throw e : Step σ α) s done failed := h

theorem ensures_lift {x : Except CompileError α} (ok : ∀ a, x = .ok a → done a s)
    (error : ∀ e, x = .error e → failed e s) :
    Ensures (liftM x : Step σ α) s done failed := by
  cases x with
  | ok a => exact ok a rfl
  | error e => exact error e rfl

theorem ensures_ofSession {f : Session → Except CompileError α} {s : Session}
    {done : α → Session → Prop} {failed : CompileError → Session → Prop}
    (ok : ∀ a, f s = .ok a → done a s) (error : ∀ e, f s = .error e → failed e s) :
    Ensures (Build.ofSession f) s done failed := by
  refine ensures_of_run ?_ ?_
  · intro a t run
    obtain ⟨ha, rfl⟩ := Prod.mk.inj run
    exact ok a ha
  · intro e t run
    obtain ⟨he, rfl⟩ := Prod.mk.inj run
    exact error e he

/-- A sequence ends well when its first part leads to a state from which the rest does. -/
theorem Ensures.bind {between : α → σ → Prop} {done : β → σ → Prop} {k : α → Step σ β}
    (first : Ensures m s between failed)
    (rest : ∀ a t, between a t → Ensures (k a) t done failed) :
    Ensures (m >>= k) s done failed := by
  unfold Ensures
  rw [run_bind]
  rcases run : m s with ⟨e | a, t⟩
  · exact first.of_error run
  · exact rest a t (first.of_ok run)

/-- A result that is looked at changes no state. -/
theorem ensures_lift_bind {done : β → σ → Prop} {x : Except CompileError α} {k : α → Step σ β}
    (ok : ∀ a, x = .ok a → Ensures (k a) s done failed) (error : ∀ e, x = .error e → failed e s) :
    Ensures (liftM x >>= k) s done failed := by
  unfold Ensures
  rw [run_bind, run_lift]
  rcases x with e | a
  · exact error e rfl
  · exact ok a rfl

theorem ensures_ofSession_bind {s : Session} {done : β → Session → Prop}
    {failed : CompileError → Session → Prop} {f : Session → Except CompileError α}
    {k : α → Step Session β} (ok : ∀ a, f s = .ok a → Ensures (k a) s done failed)
    (error : ∀ e, f s = .error e → failed e s) :
    Ensures (Build.ofSession f >>= k) s done failed := by
  unfold Ensures
  rw [run_bind, run_ofSession]
  rcases hf : f s with e | a
  · exact error e hf
  · exact ok a hf

-- a step is looked at through these rules and is not run while its statement is elaborated
attribute [irreducible] Ensures

/-- When only success is spoken of, what the first part does may be left open. -/
theorem ensures_bind_of_forall {done : β → σ → Prop} {k : α → Step σ β}
    (rest : ∀ a t, Ensures (k a) t done fun _ _ => True) :
    Ensures (m >>= k) s done fun _ _ => True := by
  have first : Ensures m s (fun _ _ => True) fun _ _ => True :=
    ensures_of_run (fun _ _ _ => trivial) fun _ _ _ => trivial
  exact first.bind fun a t _ => rest a t

/-- What holds whichever way a step ends. -/
abbrev Keeps (m : Step σ α) (s : σ) (inv : σ → Prop) : Prop :=
  Ensures m s (fun _ => inv) fun _ => inv

theorem keeps_iff {inv : σ → Prop} : Keeps m s inv ↔ inv (m s).2 := by
  unfold Keeps Ensures
  rcases m s with ⟨_ | _, t⟩ <;> rfl

/-- What holds of the items done and their results is handed on from step to step. -/
theorem ensures_mapM {f : α → Step σ β} {xs : List α} (inv : List α → List β → σ → Prop)
    (each : ∀ before x after ys t, xs = before ++ x :: after → inv before ys t →
      Ensures (f x) t (fun y u => inv (before ++ [x]) (ys ++ [y]) u) failed)
    (h : inv [] [] s) : Ensures (xs.mapM f) s (inv xs) failed := by
  have main : ∀ (after before : List α) (ys : List β) (t : σ), xs = before ++ after →
      inv before ys t →
      Ensures (after.mapM f) t (fun zs u => inv xs (ys ++ zs) u) failed := by
    intro after
    induction after with
    | nil =>
      intro before ys t hsplit ht
      obtain rfl : xs = before := by simpa using hsplit
      exact ensures_pure (by simpa using ht)
    | cons x after ih =>
      intro before ys t hsplit ht
      rw [List.mapM_cons]
      refine (each before x after ys t hsplit ht).bind fun y u hu => ?_
      have rest := ih (before ++ [x]) (ys ++ [y]) u (by simpa using hsplit) hu
      refine (rest.mono (fun _ _ h => h) fun _ _ h => h).bind fun zs v hv => ?_
      exact ensures_pure (by simpa using hv)
  exact (main xs [] [] s rfl h).mono (fun ys t ht => by simpa using ht) fun _ _ h => h

theorem ensures_forM {f : α → Step σ Unit} {xs : List α} (inv : List α → σ → Prop)
    (each : ∀ before x after t, xs = before ++ x :: after → inv before t →
      Ensures (f x) t (fun _ u => inv (before ++ [x]) u) failed)
    (h : inv [] s) : Ensures (xs.forM f) s (fun _ => inv xs) failed := by
  have main : ∀ (after before : List α) (t : σ), xs = before ++ after → inv before t →
      Ensures (after.forM f) t (fun _ => inv xs) failed := by
    intro after
    induction after with
    | nil =>
      intro before t hsplit ht
      obtain rfl : xs = before := by simpa using hsplit
      exact ensures_pure ht
    | cons x after ih =>
      intro before t hsplit ht
      show Ensures (f x >>= fun _ => after.forM f) t _ _
      exact (each before x after t hsplit ht).bind fun _ u hu =>
        ih (before ++ [x]) u (by simpa using hsplit) hu
  exact main xs [] s rfl h

/-- Each result is related to its item when each step relates them and keeps what this needs. -/
theorem ensures_mapM_forall₂ {f : α → Step σ β} {xs : List α} {inv : σ → Prop}
    {P : α → β → Prop}
    (each : ∀ x ∈ xs, ∀ t, inv t → Ensures (f x) t (fun y u => P x y ∧ inv u) failed) (h : inv s) :
    Ensures (xs.mapM f) s (fun ys t => List.Forall₂ P xs ys ∧ inv t) failed := by
  refine ensures_mapM (fun done ys t => List.Forall₂ P done ys ∧ inv t) ?_ ⟨.nil, h⟩
  rintro before x after ys t rfl ⟨hdone, ht⟩
  exact (each x (by simp) t ht).mono
    (fun y u hu => ⟨List.rel_append hdone (.cons hu.1 .nil), hu.2⟩) fun _ _ hu => hu

/-- An invariant of each step is an invariant of all steps of a list in turn. -/
theorem keeps_mapM {inv : σ → Prop} {f : α → Step σ β} {xs : List α}
    (each : ∀ x ∈ xs, ∀ t, inv t → Keeps (f x) t inv) (h : inv s) :
    Keeps (xs.mapM f) s inv := by
  induction xs generalizing s with
  | nil => exact ensures_pure h
  | cons x xs ih =>
    rw [List.mapM_cons]
    refine (each x (by simp) s h).bind fun y t ht => ?_
    refine (ih (fun z hz => each z (by simp [hz])) ht).bind fun ys u hu => ?_
    exact ensures_pure hu

theorem keeps_forM {inv : σ → Prop} {f : α → Step σ Unit} {xs : List α}
    (each : ∀ x ∈ xs, ∀ t, inv t → Keeps (f x) t inv) (h : inv s) :
    Keeps (xs.forM f) s inv := by
  induction xs generalizing s with
  | nil => exact ensures_pure h
  | cons x xs ih =>
    show Keeps (f x >>= fun _ => xs.forM f) s inv
    exact (each x (by simp) s h).bind fun _ t ht => ih (fun z hz => each z (by simp [hz])) ht

theorem keeps_foldlM {inv : σ → Prop} {f : β → α → Step σ β} {xs : List α}
    (each : ∀ b, ∀ x ∈ xs, ∀ t, inv t → Keeps (f b x) t inv) (b : β) (h : inv s) :
    Keeps (xs.foldlM f b) s inv := by
  induction xs generalizing b s with
  | nil => exact ensures_pure h
  | cons x xs ih =>
    rw [List.foldlM_cons]
    exact (each b x (by simp) s h).bind fun b' t ht =>
      ih (fun c z hz => each c z (by simp [hz])) b' ht

end Step

end WorkflowCompiler
