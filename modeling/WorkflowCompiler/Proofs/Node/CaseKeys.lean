import Mathlib.Algebra.Ring.Int.Defs
import WorkflowCompiler.Node.CaseKey
import WorkflowCompiler.Proofs.Number.Numerals

/-!
# Case keys of integers

Where a switch looks at an integer, the values of its cases are brought into one form: two values
that denote the same integer share their key, two that denote different ones do not, and a key is
its own key. Whatever denotes no integer of 64 bits is left as it is.
-/
namespace WorkflowCompiler

namespace CaseKey

/-- Whether a case value denotes a signed integer of 64 bits, with blanks around it. -/
inductive Denotes (raw : String) (n : Int) : Prop
  | intro {core : List Char} (padded : Text.Padded raw.toList core)
      (numeral : Integer.Numeral core n) (low : -2 ^ 63 ≤ n) (high : n < 2 ^ 63)

theorem readSigned_trim_eq_some_iff {raw : String} {n : Int} :
    Integer.readSigned (Text.trim raw) = some n ↔ Denotes raw n := by
  have low : Integer.minSigned = -2 ^ 63 := rfl
  have high : Integer.maxSigned = 2 ^ 63 - 1 := rfl
  have solid : ∀ core, Integer.Numeral core n →
      core ≠ [] ∧ ∀ c ∈ core, Text.isBlank c = false := fun _ numeral => numeral.solid
  rw [Integer.readSigned_eq_some_iff, Text.trim, String.toList_ofList, low, high,
    Int.le_sub_one_iff, Text.trimChars_iff solid]
  constructor
  · rintro ⟨⟨core, padded, numeral⟩, low, high⟩
    exact .intro padded numeral low high
  · rintro ⟨padded, numeral, low, high⟩
    exact ⟨⟨_, padded, numeral⟩, low, high⟩

theorem Denotes.unique {raw : String} {n m : Int} (h : Denotes raw n) (h' : Denotes raw m) :
    n = m :=
  Option.some.inj
    ((readSigned_trim_eq_some_iff.mpr h).symm.trans (readSigned_trim_eq_some_iff.mpr h'))

theorem Denotes.toString {raw : String} {n : Int} (h : Denotes raw n) :
    Denotes (ToString.toString n) n := by
  obtain ⟨-, -, low, high⟩ := h
  exact .intro (.refl _) (Integer.numeral_toString n) low high

theorem not_denotes_of_unread {raw : String} (h : Integer.readSigned (Text.trim raw) = none)
    (n : Int) : ¬Denotes raw n := by
  intro denotes
  cases h.symm.trans (readSigned_trim_eq_some_iff.mpr denotes)

theorem not_denotes_fallback : ∀ n, ¬Denotes fallback n :=
  not_denotes_of_unread (by decide +kernel)

/-- The key of a value that denotes an integer is that integer, written out. -/
theorem coerce_of_denotes {raw : String} {n : Int} (h : Denotes raw n) :
    coerce raw (some "int") = toString n := by
  have named : raw ≠ fallback := by
    rintro rfl
    exact not_denotes_fallback n h
  simp [coerce, named, readSigned_trim_eq_some_iff.mpr h]

/-- A value that denotes no integer is its own key. -/
theorem coerce_of_not_denotes {raw : String} (h : ∀ n, ¬Denotes raw n) :
    coerce raw (some "int") = raw := by
  have unread : Integer.readSigned (Text.trim raw) = none :=
    Option.eq_none_iff_forall_ne_some.mpr fun n found => h n (readSigned_trim_eq_some_iff.mp found)
  simp [coerce, unread]

theorem coerce_coerce (raw : String) :
    coerce (coerce raw (some "int")) (some "int") = coerce raw (some "int") := by
  by_cases number : ∃ n, Denotes raw n
  · obtain ⟨n, h⟩ := number
    rw [coerce_of_denotes h, coerce_of_denotes h.toString]
  · have same := coerce_of_not_denotes (not_exists.mp number)
    rw [same, same]

/-- Two values that denote integers share their key when the integers are equal. -/
theorem coerce_eq_coerce_iff {raw other : String} {n m : Int} (h : Denotes raw n)
    (h' : Denotes other m) : coerce raw (some "int") = coerce other (some "int") ↔ n = m := by
  rw [coerce_of_denotes h, coerce_of_denotes h']
  constructor
  · intro same
    exact h.toString.unique (same ▸ h'.toString)
  · rintro rfl
    rfl

/-- Keys of integers are canonical: a key is its own key, `default` and what denotes no integer are
their own keys, and the key of a value that denotes an integer denotes it too and is shared by just
the values that denote the same one. -/
theorem int_keys_canonical (raw : String) :
    coerce (coerce raw (some "int")) (some "int") = coerce raw (some "int") ∧
      (raw = fallback ∨ (∀ n, ¬Denotes raw n) → coerce raw (some "int") = raw) ∧
      ∀ n, Denotes raw n → Denotes (coerce raw (some "int")) n ∧
        ∀ other m, Denotes other m →
          (coerce raw (some "int") = coerce other (some "int") ↔ n = m) := by
  refine ⟨coerce_coerce raw, ?_, fun n h => ⟨?_, fun other m h' => coerce_eq_coerce_iff h h'⟩⟩
  · rintro (rfl | none)
    · exact coerce_of_not_denotes not_denotes_fallback
    · exact coerce_of_not_denotes none
  · rw [coerce_of_denotes h]
    exact h.toString

/-- The greatest integer of 64 bits, behind a plus sign and zeros and among blanks. -/
def greatest : String := " +0009223372036854775807\u3000"

/-- The least integer of 64 bits, behind a tab and with a zero in front. -/
def least : String := "\t-09223372036854775808"

theorem int_keys_canonical_ends :
    Denotes greatest (2 ^ 63 - 1) ∧ Denotes least (-2 ^ 63) ∧
      (coerce greatest (some "int") = coerce least (some "int") ↔ (2 ^ 63 - 1 : Int) = -2 ^ 63) ∧
      (∀ n, ¬Denotes "9223372036854775808" n) ∧
      coerce "9223372036854775808" (some "int") = "9223372036854775808" := by
  have high : Denotes greatest (2 ^ 63 - 1) :=
    readSigned_trim_eq_some_iff.mp (by decide +kernel)
  have low : Denotes least (-2 ^ 63) := readSigned_trim_eq_some_iff.mp (by decide +kernel)
  have beyond : ∀ n, ¬Denotes "9223372036854775808" n :=
    not_denotes_of_unread (by decide +kernel)
  exact ⟨high, low, ((int_keys_canonical greatest).2.2 _ high).2 least _ low, beyond,
    (int_keys_canonical _).2.1 (.inr beyond)⟩

end CaseKey

end WorkflowCompiler
