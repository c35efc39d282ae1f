import WorkflowCompiler.Library.Nesting
import WorkflowCompiler.Proofs.Steps

/-!
# Rows and walks

What a library holds after a list of saves, and what the three steps of a walk do: visiting an app
below its ancestors, loading a row and saving one.
-/
namespace WorkflowCompiler

/-- Whether a chain of apps goes on below these ancestors. -/
structure Ancestry.Below (a : Ancestry) (ancestors : List String) (maxDepth : Nat) : Prop where
  path : ancestors <+: a.path
  maxDepth : a.maxDepth = maxDepth

theorem Ancestry.Below.above {a : Ancestry} {ancestors more : List String} {maxDepth : Nat}
    (h : a.Below (ancestors ++ more) maxDepth) : a.Below ancestors maxDepth :=
  ⟨(List.prefix_append ancestors more).trans h.path, h.maxDepth⟩

/-- An app can be visited below ancestors which leave room for it and do not include it. -/
theorem Ancestry.visit_below {a : Ancestry} {ancestors : List String} {maxDepth : Nat}
    (below : a.Below ancestors maxDepth) (app : String) :
    (app ∉ ancestors ∧ ancestors.length < maxDepth ∧ ∃ b : Ancestry,
      a.visit ancestors.length app = (.ok (), b) ∧ b.Below (ancestors ++ [app]) maxDepth ∧
      b.visits = (ancestors.length, app) :: a.visits) ∨
    ((app ∈ ancestors ∨ maxDepth ≤ ancestors.length) ∧
      ∃ e b, a.visit ancestors.length app = (.error e, b)) := by
  obtain ⟨under, rfl⟩ := below
  have cut : a.path.take ancestors.length = ancestors := (List.prefix_iff_eq_take.mp under).symm
  by_cases cycle : app ∈ ancestors
  · exact .inr ⟨.inl cycle, .nestedCycle app ancestors.length, { a with path := ancestors },
      by simp [visit, cut, cycle]⟩
  · by_cases deep : a.maxDepth ≤ ancestors.length
    · exact .inr ⟨.inr deep, .nestingTooDeep app a.maxDepth, { a with path := ancestors },
        by simp [visit, cut, cycle, deep]⟩
    · refine .inl ⟨cycle, Nat.lt_of_not_le deep, ⟨ancestors ++ [app], _, a.maxDepth⟩, ?_,
        ⟨List.prefix_refl _, rfl⟩, rfl⟩
      simp [visit, cut, cycle, deep]

theorem Ancestry.below_start {maxDepth : Nat} : ({ maxDepth } : Ancestry).Below [] maxDepth :=
  ⟨List.nil_prefix, rfl⟩

namespace Library

@[simp] theorem isRow_iff {app : String} {version : GraphVersion} {row : Workflow} :
    isRow app version row = true ↔ row.appId = app ∧ row.version = version := by
  simp [isRow]

theorem lookup_eq_ok {library : Library} {app : String} {version : GraphVersion} {row : Workflow} :
    library.lookup app version = .ok (some row) ↔
      library.outage = none ∧ library.row? app version = some row := by
  unfold lookup
  cases library.outage <;> simp

theorem find?_put (rows : List Workflow) (workflow : Workflow) (app : String)
    (version : GraphVersion) :
    (put rows workflow).find? (isRow app version) =
      if isRow app version workflow then some workflow
      else rows.find? (isRow app version) := by
  induction rows with
  | nil =>
    rw [put, List.find?_cons]
    cases isRow app version workflow <;> rfl
  | cons row rest ih =>
    rw [put]
    split
    · next h =>
      have same : isRow app version row = isRow app version workflow := by
        obtain ⟨happ, hversion⟩ := isRow_iff.mp h
        rw [isRow, isRow, happ, hversion]
      rw [List.find?_cons, List.find?_cons, same]
      cases isRow app version workflow <;> rfl
    · next h =>
      rw [List.find?_cons, List.find?_cons, ih]
      cases hrow : isRow app version row with
      | false => rfl
      | true =>
        have other : isRow app version workflow = false := by
          refine Bool.eq_false_iff.mpr fun hw => h ?_
          obtain ⟨rfl, rfl⟩ := isRow_iff.mp hw
          exact hrow
        rw [other]
        rfl

/-- Saving what a row holds already changes nothing. -/
theorem put_eq_self {rows : List Workflow} {workflow : Workflow}
    (h : rows.find? (isRow workflow.appId workflow.version) = some workflow) :
    put rows workflow = rows := by
  induction rows with
  | nil => cases h
  | cons row rest ih =>
    rw [List.find?_cons] at h
    rw [put]
    split at h
    · next hrow =>
      obtain rfl := Option.some.inj h
      rw [if_pos hrow]
    · next hrow => rw [if_neg (Bool.eq_false_iff.mp hrow), ih h]

/-- The library after workflows have been saved one after the other. -/
def saveAll (library : Library) (workflows : List Workflow) : Library :=
  { library with rows := workflows.foldl put library.rows }

@[simp] theorem saveAll_nil (library : Library) : library.saveAll [] = library := rfl

@[simp] theorem outage_saveAll (library : Library) (workflows : List Workflow) :
    (library.saveAll workflows).outage = library.outage := rfl

theorem saveAll_append (library : Library) (workflows more : List Workflow) :
    library.saveAll (workflows ++ more) = (library.saveAll workflows).saveAll more := by
  rw [saveAll, List.foldl_append]
  rfl

/-- The last workflow that was saved in a row counts. -/
theorem row?_saveAll (library : Library) (workflows : List Workflow) (app : String)
    (version : GraphVersion) :
    (library.saveAll workflows).row? app version =
      (workflows.reverse.find? (isRow app version)).or (library.row? app version) := by
  induction workflows generalizing library with
  | nil => rfl
  | cons workflow rest ih =>
    have first : library.saveAll (workflow :: rest) =
        { library with rows := put library.rows workflow }.saveAll rest := rfl
    rw [first, ih, List.reverse_cons, List.find?_append, row?, find?_put]
    cases rest.reverse.find? (isRow app version) <;>
      cases h : isRow app version workflow <;> simp [h, row?]

theorem row?_saveAll_of_none {library : Library} {workflows : List Workflow} {app : String}
    {version : GraphVersion} (h : ∀ w ∈ workflows, isRow app version w = false) :
    (library.saveAll workflows).row? app version = library.row? app version := by
  rw [row?_saveAll, List.find?_eq_none.mpr]
  · rfl
  · intro w hw
    rw [h w (List.mem_reverse.mp hw)]
    exact Bool.false_ne_true

/-- A row that is saved holds one of the workflows that were saved in it. -/
theorem exists_row?_saveAll (library : Library) {workflows : List Workflow} {w : Workflow}
    (h : w ∈ workflows) :
    ∃ last ∈ workflows, last.appId = w.appId ∧ last.version = w.version ∧
      (library.saveAll workflows).row? w.appId w.version = some last := by
  have found : (workflows.reverse.find? (isRow w.appId w.version)).isSome :=
    List.find?_isSome.mpr ⟨w, List.mem_reverse.mpr h, by simp⟩
  obtain ⟨last, hlast⟩ := Option.isSome_iff_exists.mp found
  obtain ⟨happ, hversion⟩ := isRow_iff.mp (List.find?_some hlast)
  refine ⟨last, List.mem_reverse.mp (List.mem_of_find?_eq_some hlast), happ, hversion, ?_⟩
  rw [row?_saveAll, hlast]
  rfl

/-- A row that has changed was saved. -/
theorem exists_of_row?_ne {library : Library} {workflows : List Workflow} {app : String}
    {version : GraphVersion}
    (h : (library.saveAll workflows).row? app version ≠ library.row? app version) :
    ∃ w ∈ workflows, w.appId = app ∧ w.version = version := by
  by_contra none
  refine h (row?_saveAll_of_none fun w hw => Bool.eq_false_iff.mpr fun hrow => none ?_)
  exact ⟨w, hw, isRow_iff.mp hrow⟩

/-! ## Steps of a walk -/


section Steps

open Step

variable {walk : Walk} {failed : CompileError → Walk → Prop}

theorem ensures_visit {done : Unit → Walk → Prop} {ancestors : List String} {maxDepth : Nat}
    {app : String} (below : walk.ancestry.Below ancestors maxDepth)
    (ok : app ∉ ancestors → ancestors.length < maxDepth → ∀ t : Walk, t.library = walk.library →
      t.ancestry.Below (ancestors ++ [app]) maxDepth →
      t.ancestry.visits = (ancestors.length, app) :: walk.ancestry.visits → done () t)
    (error : app ∈ ancestors ∨ maxDepth ≤ ancestors.length → ∀ e (t : Walk),
      t.library = walk.library → failed e t) :
    Ensures (visit ancestors.length app) walk done failed := by
  rcases Ancestry.visit_below below app with ⟨new, room, b, run, below, visits⟩ | ⟨none, e, b, run⟩
  · have run : visit ancestors.length app walk = (.ok (), { walk with ancestry := b }) := by
      rw [visit, run]
    exact ensures_of_ok run (ok new room _ rfl below visits)
  · have run : visit ancestors.length app walk = (.error e, { walk with ancestry := b }) := by
      rw [visit, run]
    exact ensures_of_error run (error none e _ rfl)

theorem ensures_saveRow {done : Unit → Walk → Prop} {workflow : Workflow}
    (ok : walk.library.outage = none →
      done () { walk with library := walk.library.saveAll [workflow] })
    (error : ∀ e, walk.library.outage.isSome → failed e walk) :
    Ensures (saveRow workflow) walk done failed := by
  cases h : walk.library.outage with
  | some text =>
    have run : saveRow workflow walk = (.error (.service (.backend text)), walk) := by
      simp only [saveRow, save, h]
    exact ensures_of_error run (error _ (by rw [h]; rfl))
  | none =>
    have run : saveRow workflow walk =
        (.ok (), { walk with library := walk.library.saveAll [workflow] }) := by
      simp only [saveRow, save, saveAll, h, List.foldl_cons, List.foldl_nil]
    exact ensures_of_ok run (ok h)

theorem ensures_loadRow {done : Workflow → Walk → Prop} {app : String} {version : GraphVersion}
    (ok : ∀ row, walk.library.outage = none → walk.library.row? app version = some row →
      done row walk)
    (error : ∀ e, walk.library.outage.isSome ∨ walk.library.row? app version = none →
      failed e walk) :
    Ensures (loadRow app version) walk done failed := by
  have run : loadRow app version walk =
      (((walk.library.lookup app version).get "workflow" app), walk) := rfl
  cases hout : walk.library.outage with
  | some text =>
    rw [lookup, hout] at run
    exact ensures_of_error run (error _ (.inl (by rw [hout]; rfl)))
  | none =>
    cases hrow : walk.library.row? app version with
    | none =>
      rw [lookup, hout, hrow] at run
      exact ensures_of_error run (error _ (.inr hrow))
    | some row =>
      rw [lookup, hout, hrow] at run
      exact ensures_of_ok run (ok row hout hrow)

theorem ensures_get_bind {α : Type} {done : α → Walk → Prop} {k : Walk → WalkM α}
    (h : Ensures (k walk) walk done failed) : Ensures (get >>= k) walk done failed := by
  unfold Ensures at h ⊢
  rwa [run_bind, run_get]

/-- What a step ensures holds of the walk that it is. -/
theorem exists_walk {α : Type} {library : Library} {maxDepth : Nat} {step : WalkM α}
    {done : α → Walk → Prop} (h : Ensures step ⟨{ maxDepth }, library⟩ done failed) :
    ∃ w : Walk, (library.walk maxDepth step).2 = w.library ∧
      (∀ a, (library.walk maxDepth step).1 = .ok a → done a w) ∧
      ∀ e, (library.walk maxDepth step).1 = .error e → failed e w := by
  refine ⟨(step ⟨{ maxDepth }, library⟩).2, rfl, fun a ran => h.of_ok ?_, fun e ran => h.of_error ?_⟩
  · exact Prod.ext ran rfl
  · exact Prod.ext ran rfl

end Steps

end Library

end WorkflowCompiler
