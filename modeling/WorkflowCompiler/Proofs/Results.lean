import Mathlib.Data.List.Forall2

/-!
# Results

A computation gives a result or fails, and in a sequence the first failure ends it. The results of
two computations correspond when both fail for the same reason or both succeed with related values.
-/
namespace WorkflowCompiler

section Related

variable {α β : Type} {R : α → β → Prop} {xs : List α} {ys : List β}

theorem exists_of_mem_right (h : List.Forall₂ R xs ys) {y : β} (hy : y ∈ ys) : ∃ x ∈ xs, R x y := by
  induction h with
  | nil => cases hy
  | cons first _ ih =>
    rcases List.mem_cons.mp hy with rfl | hy
    · exact ⟨_, List.mem_cons_self, first⟩
    · obtain ⟨x, hx, h⟩ := ih hy
      exact ⟨x, List.mem_cons_of_mem _ hx, h⟩

theorem exists_of_mem_left (h : List.Forall₂ R xs ys) {x : α} (hx : x ∈ xs) : ∃ y ∈ ys, R x y :=
  exists_of_mem_right h.flip hx

/-- Lists that are related item by item can be zipped. -/
theorem forall₂_zip_zip {γ δ : Type} {S : γ → δ → Prop} {zs : List γ} {ws : List δ}
    (h : List.Forall₂ R xs ys) (h' : List.Forall₂ S zs ws) :
    List.Forall₂ (fun p q => R p.1 q.1 ∧ S p.2 q.2) (xs.zip zs) (ys.zip ws) := by
  induction h generalizing zs ws with
  | nil => exact .nil
  | cons first _ ih =>
    cases h' with
    | nil => exact .nil
    | cons first' rest => exact .cons ⟨first, first'⟩ (ih rest)

end Related

section Results

variable {ε α β : Type} {x : Except ε α} {k : α → Except ε β}

theorem bind_eq_ok {b : β} : (x >>= k) = .ok b ↔ ∃ a, x = .ok a ∧ k a = .ok b := by
  cases x <;> simp [bind, Except.bind]

theorem bind_eq_error {e : ε} :
    (x >>= k) = .error e ↔ x = .error e ∨ ∃ a, x = .ok a ∧ k a = .error e := by
  cases x <;> simp [bind, Except.bind]

theorem eq_ok_of_toOption {a : α} (h : x.toOption = some a) : x = .ok a := by
  cases x with
  | error e => cases h
  | ok b => exact congrArg Except.ok (Option.some.inj h)

theorem bind_succeeds (first : ∃ a, x = .ok a) (rest : ∀ a, ∃ b, k a = .ok b) :
    ∃ b, (x >>= k) = .ok b := by
  obtain ⟨a, rfl⟩ := first
  exact rest a

@[simp] theorem pure_eq_ok {a b : α} : (pure a : Except ε α) = .ok b ↔ a = b := by
  simp [pure, Except.pure]

@[simp] theorem pure_ne_error {a : α} {e : ε} : (pure a : Except ε α) ≠ .error e := by
  simp [pure, Except.pure]

@[simp] theorem throw_ne_ok {e : ε} {a : α} : (throw e : Except ε α) ≠ .ok a := by
  simp [throw, throwThe, MonadExceptOf.throw]

@[simp] theorem throw_eq_error {e d : ε} : (throw e : Except ε α) = .error d ↔ e = d := by
  simp [throw, throwThe, MonadExceptOf.throw]

theorem map_eq_ok {f : α → β} {b : β} : x.map f = .ok b ↔ ∃ a, x = .ok a ∧ f a = b := by
  cases x <;> simp [Except.map]

theorem map_eq_error {f : α → β} {e : ε} : x.map f = .error e ↔ x = .error e := by
  cases x <;> simp [Except.map]

theorem mapError_eq_ok {ε' : Type} {f : ε → ε'} {a : α} : x.mapError f = .ok a ↔ x = .ok a := by
  cases x <;> simp [Except.mapError]

theorem bind_map {γ : Type} {f : α → β} {k : β → Except ε γ} :
    (x.map f >>= k) = (x >>= fun a => k (f a)) := by
  cases x <;> rfl

theorem mapM_eq_ok {f : α → Except ε β} {xs : List α} {ys : List β} :
    xs.mapM f = .ok ys ↔ List.Forall₂ (fun x y => f x = .ok y) xs ys := by
  induction xs generalizing ys with
  | nil =>
    rw [List.mapM_nil, pure_eq_ok, List.forall₂_nil_left_iff]
    exact eq_comm
  | cons x xs ih =>
    rw [List.mapM_cons, bind_eq_ok, List.forall₂_cons_left_iff]
    constructor
    · rintro ⟨y, hy, h⟩
      obtain ⟨zs, hzs, h⟩ := bind_eq_ok.mp h
      exact ⟨y, zs, hy, ih.mp hzs, (pure_eq_ok.mp h).symm⟩
    · rintro ⟨y, zs, hy, hzs, rfl⟩
      exact ⟨y, hy, bind_eq_ok.mpr ⟨zs, ih.mpr hzs, rfl⟩⟩

/-- Steps that agree on the items of a list agree on the list. -/
theorem mapM_congr {m : Type → Type} [Monad m] [LawfulMonad m] {α β : Type} {f g : α → m β}
    {xs : List α} (h : ∀ x ∈ xs, f x = g x) : xs.mapM f = xs.mapM g := by
  induction xs with
  | nil => rfl
  | cons x xs ih =>
    rw [List.mapM_cons, List.mapM_cons, h x List.mem_cons_self,
      ih fun y hy => h y (List.mem_cons_of_mem _ hy)]

/-- A list of steps fails with the failure of the first of them that fails. -/
theorem mapM_eq_error {f : α → Except ε β} {xs : List α} {e : ε} :
    xs.mapM f = .error e ↔ ∃ before x after, xs = before ++ x :: after ∧
      (∀ y ∈ before, ∃ b, f y = .ok b) ∧ f x = .error e := by
  induction xs with
  | nil => simp
  | cons x xs ih =>
    rw [List.mapM_cons, bind_eq_error]
    constructor
    · rintro (h | ⟨y, hy, h⟩)
      · exact ⟨[], x, xs, rfl, by simp, h⟩
      · rcases bind_eq_error.mp h with h | ⟨ys, -, h⟩
        · obtain ⟨before, z, after, rfl, fine, he⟩ := ih.mp h
          exact ⟨x :: before, z, after, rfl, List.forall_mem_cons.mpr ⟨⟨y, hy⟩, fine⟩, he⟩
        · simp at h
    · rintro ⟨_ | ⟨w, before⟩, z, after, split, fine, he⟩
      · obtain ⟨rfl, rfl⟩ := List.cons.inj split
        exact .inl he
      · obtain ⟨rfl, rfl⟩ := List.cons.inj split
        obtain ⟨⟨y, hy⟩, fine⟩ := List.forall_mem_cons.mp fine
        exact .inr ⟨y, hy, bind_eq_error.mpr (.inl (ih.mpr ⟨before, z, after, rfl, fine, he⟩))⟩

theorem error_of_mapM {f : α → Except ε β} {xs : List α} {e : ε} (h : xs.mapM f = .error e) :
    ∃ x ∈ xs, f x = .error e := by
  obtain ⟨before, x, after, rfl, -, he⟩ := mapM_eq_error.mp h
  exact ⟨x, by simp, he⟩

theorem mapM_succeeds {f : α → Except ε β} {xs : List α} (h : ∀ x ∈ xs, ∃ y, f x = .ok y) :
    ∃ ys, xs.mapM f = .ok ys := by
  cases hm : xs.mapM f with
  | ok ys => exact ⟨ys, rfl⟩
  | error e =>
    obtain ⟨x, hx, he⟩ := error_of_mapM hm
    obtain ⟨y, hy⟩ := h x hx
    cases he.symm.trans hy

theorem error_of_foldlM {f : β → α → Except ε β} {xs : List α} {b : β} {e : ε}
    (h : xs.foldlM f b = .error e) : ∃ c, ∃ x ∈ xs, f c x = .error e := by
  induction xs generalizing b with
  | nil => simp at h
  | cons x xs ih =>
    rw [List.foldlM_cons] at h
    rcases bind_eq_error.mp h with h | ⟨c, -, h⟩
    · exact ⟨b, x, List.mem_cons_self, h⟩
    · obtain ⟨d, z, hz, he⟩ := ih h
      exact ⟨d, z, List.mem_cons_of_mem _ hz, he⟩

/-- Where a fold succeeds, each of its steps does. -/
theorem exists_ok_of_foldlM {f : β → α → Except ε β} {xs : List α} {b c : β}
    (h : xs.foldlM f b = .ok c) {x : α} (hx : x ∈ xs) : ∃ before after, f before x = .ok after := by
  induction xs generalizing b with
  | nil => cases hx
  | cons y xs ih =>
    rw [List.foldlM_cons] at h
    obtain ⟨d, hd, h⟩ := bind_eq_ok.mp h
    rcases List.mem_cons.mp hx with rfl | hx
    · exact ⟨b, d, hd⟩
    · exact ih h hx

theorem foldlM_succeeds {f : β → α → Except ε β} {xs : List α}
    (h : ∀ b, ∀ x ∈ xs, ∃ c, f b x = .ok c) (b : β) : ∃ c, xs.foldlM f b = .ok c := by
  cases hf : xs.foldlM f b with
  | ok c => exact ⟨c, rfl⟩
  | error e =>
    obtain ⟨d, x, hx, he⟩ := error_of_foldlM hf
    obtain ⟨c, hc⟩ := h d x hx
    cases he.symm.trans hc

end Results

/-- Two outcomes of which both fail for the same reason, or both succeed with related results. -/
inductive Corresponds {ε α β : Type} (R : α → β → Prop) : Except ε α → Except ε β → Prop
  | ok {a : α} {b : β} (related : R a b) : Corresponds R (.ok a) (.ok b)
  | error (e : ε) : Corresponds R (.error e) (.error e)

namespace Corresponds

variable {ε α β γ δ : Type} {R : α → β → Prop} {S : γ → δ → Prop} {x : Except ε α} {y : Except ε β}

theorem refl {R : α → α → Prop} (h : ∀ a, R a a) (x : Except ε α) : Corresponds R x x := by
  cases x with
  | error e => exact .error e
  | ok a => exact .ok (h a)

theorem mono {R' : α → β → Prop} (h : Corresponds R x y) (imp : ∀ a b, R a b → R' a b) :
    Corresponds R' x y := by
  cases h with
  | error e => exact .error e
  | ok related => exact .ok (imp _ _ related)

theorem eq {x y : Except ε α} (h : Corresponds Eq x y) : x = y := by
  cases h with
  | error e => rfl
  | ok related => rw [related]

theorem of_ok {a : α} {b : β} (h : Corresponds R (.ok a : Except ε α) (.ok b)) : R a b := by
  cases h with
  | ok related => exact related

theorem bind {k : α → Except ε γ} {l : β → Except ε δ} (first : Corresponds R x y)
    (rest : ∀ a b, R a b → Corresponds S (k a) (l b)) : Corresponds S (x >>= k) (y >>= l) := by
  cases first with
  | error e => exact .error e
  | ok related => exact rest _ _ related

theorem map {f : α → γ} {g : β → δ} (h : Corresponds R x y) (imp : ∀ a b, R a b → S (f a) (g b)) :
    Corresponds S (x.map f) (y.map g) := by
  cases h with
  | error e => exact .error e
  | ok related => exact .ok (imp _ _ related)

theorem mapM {f : α → Except ε γ} {g : α → Except ε δ} {xs : List α}
    (each : ∀ x ∈ xs, Corresponds S (f x) (g x)) :
    Corresponds (List.Forall₂ S) (xs.mapM f) (xs.mapM g) := by
  induction xs with
  | nil => exact .ok .nil
  | cons x xs ih =>
    rw [List.mapM_cons, List.mapM_cons]
    refine (each x List.mem_cons_self).bind fun c d hcd => ?_
    refine (ih fun z hz => each z (List.mem_cons_of_mem _ hz)).bind fun cs ds hrest => ?_
    exact .ok (.cons hcd hrest)

theorem foldlM {f : α → γ → Except ε α} {g : β → γ → Except ε β} {xs : List γ}
    (each : ∀ x ∈ xs, ∀ a b, R a b → Corresponds R (f a x) (g b x)) {a : α} {b : β} (h : R a b) :
    Corresponds R (xs.foldlM f a) (xs.foldlM g b) := by
  induction xs generalizing a b with
  | nil => exact .ok h
  | cons x xs ih =>
    rw [List.foldlM_cons, List.foldlM_cons]
    exact (each x List.mem_cons_self a b h).bind fun c d hcd =>
      ih (fun z hz => each z (List.mem_cons_of_mem _ hz)) hcd

end Corresponds

end WorkflowCompiler
