import WorkflowCompiler.Proofs.Steps

/-!
# Steps side by side

Two steps go in lockstep when, from related states, both fail for the same reason or both succeed
with related results, and the states that they leave are related again. A step that does not see
some part of a state goes in lockstep with itself, whatever that part is.
-/
namespace WorkflowCompiler

namespace Step

variable {σ α β : Type} {m : Step σ α} {s : σ}

/-- Two outcomes of which both fail for the same reason, or both succeed with related results, and
the states that are left. -/
inductive Matches {τ : Type} (R : α → β → Prop) (Q : σ → τ → Prop)
    (E : CompileError → σ → τ → Prop) : Except CompileError α × σ → Except CompileError β × τ → Prop
  | ok {a : α} {b : β} {t : σ} {t' : τ} (related : R a b) (after : Q t t') :
      Matches R Q E (.ok a, t) (.ok b, t')
  | error (e : CompileError) {t : σ} {t' : τ} (after : E e t t') :
      Matches R Q E (.error e, t) (.error e, t')

/-- Two steps that end alike and leave related states. -/
def Lockstep {τ : Type} (m : Step σ α) (m' : Step τ β) (s : σ) (s' : τ) (R : α → β → Prop)
    (Q : σ → τ → Prop) (E : CompileError → σ → τ → Prop) : Prop :=
  Matches R Q E (m s) (m' s')

section Lockstep

variable {τ γ δ : Type} {m' : Step τ β} {s' : τ} {R : α → β → Prop} {Q : σ → τ → Prop}
  {E : CompileError → σ → τ → Prop}

theorem Lockstep.of_ok (h : Lockstep m m' s s' R Q E) {a : α} {b : β} {t : σ} {t' : τ}
    (run : m s = (.ok a, t)) (run' : m' s' = (.ok b, t')) : R a b ∧ Q t t' := by
  unfold Lockstep at h
  rw [run, run'] at h
  cases h with
  | ok related after => exact ⟨related, after⟩

theorem Lockstep.exists_ok (h : Lockstep m m' s s' R Q E) {a : α} {t : σ} (run : m s = (.ok a, t)) :
    ∃ b t', m' s' = (.ok b, t') ∧ R a b ∧ Q t t' := by
  unfold Lockstep at h
  rw [run] at h
  generalize m' s' = p at h
  cases h with
  | ok related after => exact ⟨_, _, rfl, related, after⟩

theorem lockstep_of_run (h : Lockstep m m' s s' R Q E) {R' : α → β → Prop} {Q' : σ → τ → Prop}
    {E' : CompileError → σ → τ → Prop}
    (ok : ∀ a b t t', m s = (.ok a, t) → m' s' = (.ok b, t') → R a b → Q t t' → R' a b ∧ Q' t t')
    (error : ∀ e t t', m s = (.error e, t) → m' s' = (.error e, t') → E e t t' → E' e t t') :
    Lockstep m m' s s' R' Q' E' := by
  unfold Lockstep at h ⊢
  generalize hp : m s = p, hp' : m' s' = p' at h
  cases h with
  | ok related after =>
    obtain ⟨related, after⟩ := ok _ _ _ _ hp hp' related after
    exact .ok related after
  | error e after => exact .error e (error e _ _ hp hp' after)

theorem lockstep_pure {a : α} {b : β} (h : R a b) (q : Q s s') :
    Lockstep (pure a : Step σ α) (pure b : Step τ β) s s' R Q E := .ok h q

theorem lockstep_lift {x : Except CompileError α} {y : Except CompileError β}
    (h : Corresponds R x y) (ok : Q s s') (error : ∀ e, E e s s') :
    Lockstep (liftM x : Step σ α) (liftM y : Step τ β) s s' R Q E := by
  cases h with
  | ok related => exact .ok related ok
  | error e => exact .error e (error e)

theorem lockstep_ofSession {s s' : Session} {Q : Session → Session → Prop}
    {E : CompileError → Session → Session → Prop} {f : Session → Except CompileError α}
    {g : Session → Except CompileError β} (h : Corresponds R (f s) (g s')) (ok : Q s s')
    (error : ∀ e, E e s s') : Lockstep (Build.ofSession f) (Build.ofSession g) s s' R Q E := by
  unfold Lockstep
  rw [run_ofSession, run_ofSession]
  generalize f s = x, g s' = y at h
  cases h with
  | ok related => exact .ok related ok
  | error e => exact .error e (error e)

/-- Sequences go in lockstep when their parts do. -/
theorem Lockstep.bind {S : γ → δ → Prop} {P : σ → τ → Prop} {k : α → Step σ γ} {l : β → Step τ δ}
    (first : Lockstep m m' s s' R Q E)
    (rest : ∀ a b t t', m s = (.ok a, t) → m' s' = (.ok b, t') → R a b → Q t t' →
      Lockstep (k a) (l b) t t' S P E) :
    Lockstep (m >>= k) (m' >>= l) s s' S P E := by
  unfold Lockstep at first ⊢
  rw [run_bind, run_bind]
  generalize hp : m s = p, hp' : m' s' = p' at first
  cases first with
  | ok related after => exact rest _ _ _ _ hp hp' related after
  | error e after => exact .error e after

/-- What relates the states may depend on the items that are done. -/
theorem lockstep_mapM {f : γ → Step σ α} {g : γ → Step τ β} {xs : List γ}
    (Q : List γ → σ → τ → Prop)
    (each : ∀ before x after t t', xs = before ++ x :: after → Q before t t' →
      Lockstep (f x) (g x) t t' R (Q (before ++ [x])) E) (q : Q [] s s') :
    Lockstep (xs.mapM f) (xs.mapM g) s s' (List.Forall₂ R) (Q xs) E := by
  have main : ∀ (after before : List γ) (t : σ) (t' : τ), xs = before ++ after → Q before t t' →
      Lockstep (after.mapM f) (after.mapM g) t t' (List.Forall₂ R) (Q xs) E := by
    intro after
    induction after with
    | nil =>
      intro before t t' split q
      obtain rfl : xs = before := by simpa using split
      exact lockstep_pure .nil q
    | cons x after ih =>
      intro before t t' split q
      rw [List.mapM_cons, List.mapM_cons]
      refine (each before x after t t' split q).bind fun a b u u' _ _ hab hu => ?_
      have rest := ih (before ++ [x]) u u' (by simpa using split) hu
      refine rest.bind fun as bs v v' _ _ hrest hv => ?_
      exact lockstep_pure (.cons hab hrest) hv
  exact main xs [] s s' rfl q

/-- What relates the items of two lists position by position may be all that the steps need. -/
theorem lockstep_mapM_forall₂ {γ' : Type} {P : γ → γ' → Prop} {f : γ → Step σ α} {g : γ' → Step τ β}
    {xs : List γ} {ys : List γ'} (items : List.Forall₂ P xs ys)
    (each : ∀ x y t t', P x y → Q t t' → Lockstep (f x) (g y) t t' R Q E) (q : Q s s') :
    Lockstep (xs.mapM f) (ys.mapM g) s s' (List.Forall₂ R) Q E := by
  induction items generalizing s s' with
  | nil => exact lockstep_pure .nil q
  | @cons x y xs ys first _ ih =>
    rw [List.mapM_cons, List.mapM_cons]
    refine (each x y s s' first q).bind fun a b t t' _ _ hab ht => ?_
    exact (ih ht).bind fun as bs u u' _ _ hrest hu => lockstep_pure (.cons hab hrest) hu

theorem lockstep_foldlM {f : α → γ → Step σ α} {g : β → γ → Step τ β} {xs : List γ}
    (each : ∀ x ∈ xs, ∀ a b t t', R a b → Q t t' → Lockstep (f a x) (g b x) t t' R Q E) {a : α}
    {b : β} (h : R a b) (q : Q s s') : Lockstep (xs.foldlM f a) (xs.foldlM g b) s s' R Q E := by
  induction xs generalizing a b s s' with
  | nil => exact lockstep_pure h q
  | cons x xs ih =>
    rw [List.foldlM_cons, List.foldlM_cons]
    exact (each x List.mem_cons_self a b s s' h q).bind fun a b t t' _ _ hab ht =>
      ih (fun z hz => each z (List.mem_cons_of_mem _ hz)) hab ht

theorem lockstep_forM {f : γ → Step σ Unit} {g : γ → Step τ Unit} {xs : List γ}
    (each : ∀ x ∈ xs, ∀ t t', Q t t' → Lockstep (f x) (g x) t t' Eq Q E) (q : Q s s') :
    Lockstep (xs.forM f) (xs.forM g) s s' Eq Q E := by
  induction xs generalizing s s' with
  | nil => exact lockstep_pure rfl q
  | cons x xs ih =>
    show Lockstep (f x >>= fun _ => xs.forM f) (g x >>= fun _ => xs.forM g) s s' Eq Q E
    exact (each x List.mem_cons_self s s' q).bind fun _ _ t t' _ _ _ ht =>
      ih (fun z hz => each z (List.mem_cons_of_mem _ hz)) ht

end Lockstep

/-- Whether a step does not see what `f` changes in a state: it ends alike and leaves the changed
state behind. -/
def Blind (f : σ → σ) (m : Step σ α) : Prop := ∀ s, m (f s) = ((m s).1, f (m s).2)

section Blind

variable {f : σ → σ}

theorem blind_pure (a : α) : Blind f (pure a : Step σ α) := fun _ => rfl

theorem blind_lift (x : Except CompileError α) : Blind f (liftM x : Step σ α) := fun _ => rfl

theorem blind_ofSession {f : Session → Session} {g : Session → Except CompileError α}
    (h : ∀ s, g (f s) = g s) : Blind f (Build.ofSession g) := by
  intro s
  rw [run_ofSession, run_ofSession, h]

theorem Blind.bind {k : α → Step σ β} (first : Blind f m) (rest : ∀ a, Blind f (k a)) :
    Blind f (m >>= k) := by
  intro s
  rw [run_bind, run_bind, first s]
  rcases m s with ⟨e | a, t⟩
  · rfl
  · exact rest a t

theorem blind_foldlM {step : β → α → Step σ β} (each : ∀ b x, Blind f (step b x)) (xs : List α)
    (b : β) : Blind f (xs.foldlM step b) := by
  induction xs generalizing b with
  | nil => exact blind_pure b
  | cons x xs ih =>
    rw [List.foldlM_cons]
    exact (each b x).bind ih

theorem blind_forM {step : α → Step σ Unit} (each : ∀ x, Blind f (step x)) (xs : List α) :
    Blind f (xs.forM step) := by
  induction xs with
  | nil => exact blind_pure ()
  | cons x xs ih =>
    show Blind f (step x >>= fun _ => xs.forM step)
    exact (each x).bind fun _ => ih

/-- From states that differ in what a step does not see, it goes in lockstep with itself. -/
theorem Blind.lockstep (h : Blind f m) {s s' : σ} (same : f s = f s') :
    Lockstep m m s s' Eq (fun t t' => f t = f t') fun _ t t' => f t = f t' := by
  have runs : ((m s).1, f (m s).2) = ((m s').1, f (m s').2) := by
    rw [← h s, ← h s', same]
  unfold Lockstep
  generalize m s = p, m s' = p' at runs
  obtain ⟨x, t⟩ := p
  obtain ⟨x', t'⟩ := p'
  obtain ⟨rfl, after⟩ := Prod.mk.inj runs
  cases x with
  | ok a => exact .ok rfl after
  | error e => exact .error e after

end Blind

end Step

end WorkflowCompiler
