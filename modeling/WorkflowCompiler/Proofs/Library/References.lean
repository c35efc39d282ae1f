import Mathlib.Data.List.Chain
import WorkflowCompiler.Proofs.Library.Rows

/-!
# References between rows

Which apps the row of an app refers to, and when a copy of all that it reaches can be made: all rows
are there, no chain of references comes back to itself, and none is too long. Levels that are closed
under references bound the chains and rule out cycles.
-/
namespace WorkflowCompiler

open Relation

/-- Whether the node refers to the row of its app: it holds a graph, is no reference to another app
as it is published, and has no graph embedded. -/
structure EditorNode.IsReference (node : EditorNode) : Prop where
  holdsGraph : node.holdsGraph = true
  isApp : node.isApp = false
  embedded : node.embedded? = .ok none

/-- The apps that nodes refer to. -/
def references (nodes : List EditorNode) : Set String :=
  {app | ∃ node ∈ nodes, node.IsReference ∧ node.childApp = app}

namespace Library

theorem ids_of_lookup {library : Library} {app : String} {version : GraphVersion} {row : Workflow}
    (h : library.lookup app version = .ok (some row)) : row.appId = app ∧ row.version = version :=
  isRow_iff.mp (List.find?_some (lookup_eq_ok.mp h).2)

/-- Whether the row of an app refers to the row of another app. -/
def Refers (library : Library) (version : GraphVersion) (app child : String) : Prop :=
  ∃ row, library.row? app version = some row ∧ child ∈ references row.graph.nodes

/-- Whether all that an app reaches can be copied. -/
structure Clonable (library : Library) (version : GraphVersion) (maxDepth : Nat) (app : String) :
    Prop where
  rows : ∀ id, ReflTransGen (library.Refers version) app id →
    ∃ row, library.lookup id version = .ok (some row)
  acyclic : ∀ id, ReflTransGen (library.Refers version) app id →
    ¬ TransGen (library.Refers version) id id
  shallow : ∀ chain, (app :: chain).IsChain (library.Refers version) →
    (app :: chain).length ≤ maxDepth

section Lines

variable {library : Library} {version : GraphVersion} {maxDepth : Nat} {root id child : String}
  {ancestors : List String}

/-- Whether the ancestors of an app are a chain of references from the outermost app to it. -/
structure Line (library : Library) (version : GraphVersion) (root : String)
    (ancestors : List String) (id : String) : Prop where
  chain : (ancestors ++ [id]).IsChain (library.Refers version)
  start : (ancestors ++ [id]).head? = some root

theorem line_start : Line library version root [] root := ⟨.singleton root, rfl⟩

theorem Line.next (h : Line library version root ancestors id)
    (refers : library.Refers version id child) :
    Line library version root (ancestors ++ [id]) child := by
  refine ⟨?_, ?_⟩
  · rw [List.append_assoc]
    exact List.isChain_append_cons_cons.mpr ⟨h.chain, refers, .singleton child⟩
  · rw [List.head?_append, h.start]
    rfl

theorem Line.back (h : Line library version root ancestors id) :
    ∀ a ∈ ancestors, TransGen (library.Refers version) a id := by
  have pairs : (ancestors ++ [id]).Pairwise (TransGen (library.Refers version)) :=
    List.isChain_iff_pairwise.mp (h.chain.imp fun _ _ refers => .single refers)
  intro a ha
  exact (List.pairwise_append.mp pairs).2.2 a ha id (List.mem_singleton_self id)

theorem Line.reached (h : Line library version root ancestors id) :
    ReflTransGen (library.Refers version) root id := by
  cases ancestors with
  | nil =>
    obtain rfl := Option.some.inj h.start
    exact .refl
  | cons first rest =>
    obtain rfl := Option.some.inj h.start
    exact (h.back first List.mem_cons_self).to_reflTransGen

theorem Line.not_mem (h : Line library version root ancestors id)
    (clonable : library.Clonable version maxDepth root) : id ∉ ancestors := fun mem =>
  clonable.acyclic id h.reached (h.back id mem)

theorem Line.length_lt (h : Line library version root ancestors id)
    (clonable : library.Clonable version maxDepth root) : ancestors.length < maxDepth := by
  obtain ⟨rest, hrest⟩ := List.head?_eq_some_iff.mp h.start
  have bound := clonable.shallow rest (hrest ▸ h.chain)
  rw [← hrest, List.length_append, List.length_singleton] at bound
  exact bound

end Lines

section Levels

variable {library : Library} {version : GraphVersion} {maxDepth : Nat} {levels : List (Nat × String)}

/-- Whether each app at a level below the bound is stored and has all apps that it refers to at the
next level. -/
def Levelled (library : Library) (version : GraphVersion) (maxDepth : Nat)
    (levels : List (Nat × String)) : Prop :=
  ∀ level id, (level, id) ∈ levels → level < maxDepth ∧
    (∃ row, library.lookup id version = .ok (some row)) ∧
    ∀ child, library.Refers version id child → (level + 1, child) ∈ levels

theorem Levelled.reached (h : Levelled library version maxDepth levels) {level : Nat}
    {app id : String} (mem : (level, app) ∈ levels)
    (reached : ReflTransGen (library.Refers version) app id) : ∃ k, (k, id) ∈ levels := by
  induction reached with
  | refl => exact ⟨level, mem⟩
  | tail _ refers ih =>
    obtain ⟨k, hk⟩ := ih
    exact ⟨k + 1, (h k _ hk).2.2 _ refers⟩

theorem Levelled.length_le (h : Levelled library version maxDepth levels) {chain : List String}
    {level : Nat} {app : String} (mem : (level, app) ∈ levels)
    (refers : (app :: chain).IsChain (library.Refers version)) :
    level + (app :: chain).length ≤ maxDepth := by
  induction chain generalizing level app with
  | nil => exact (h level app mem).1
  | cons child rest ih =>
    obtain ⟨first, rest⟩ := List.isChain_cons_cons.mp refers
    have bound := ih ((h level app mem).2.2 child first) rest
    rw [List.length_cons]
    omega

theorem Levelled.deeper (h : Levelled library version maxDepth levels) {level : Nat}
    {app id : String} (mem : (level, app) ∈ levels)
    (reached : TransGen (library.Refers version) app id) :
    ∃ k, level < k ∧ (k, id) ∈ levels := by
  induction reached with
  | single refers => exact ⟨level + 1, Nat.lt_succ_self level, (h level app mem).2.2 _ refers⟩
  | tail _ refers ih =>
    obtain ⟨k, hk, hmem⟩ := ih
    exact ⟨k + 1, by omega, (h k _ hmem).2.2 _ refers⟩

/-- What is closed under references can be copied. -/
theorem Levelled.clonable (h : Levelled library version maxDepth levels) {level : Nat}
    {app : String} (mem : (level, app) ∈ levels) : library.Clonable version maxDepth app where
  rows id reached := by
    obtain ⟨k, hk⟩ := h.reached mem reached
    exact (h k id hk).2.1
  acyclic id reached cycle := by
    -- around a cycle the levels rise without a bound
    have rises : ∀ n, ∃ k, n ≤ k ∧ (k, id) ∈ levels := by
      intro n
      induction n with
      | zero =>
        obtain ⟨k, hk⟩ := h.reached mem reached
        exact ⟨k, Nat.zero_le k, hk⟩
      | succ n ih =>
        obtain ⟨k, hn, hk⟩ := ih
        obtain ⟨l, hl, hmem⟩ := h.deeper hk cycle
        exact ⟨l, by omega, hmem⟩
    obtain ⟨k, hk, hmem⟩ := rises maxDepth
    exact absurd (h k id hmem).1 (Nat.not_lt.mpr hk)
  shallow chain refers := by
    have bound := h.length_le mem refers
    omega

end Levels

end Library

end WorkflowCompiler
