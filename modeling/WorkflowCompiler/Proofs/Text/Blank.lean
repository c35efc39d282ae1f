import WorkflowCompiler.Text.Blank

/-!
# Texts with blanks around them

Trimming takes nothing but blanks off the two ends of a text. What holds no blank is therefore found
again, whatever blanks stand around it.
-/
namespace WorkflowCompiler

namespace Text

/-- Whether a text is another one with blanks around it. -/
def Padded (text core : List Char) : Prop :=
  ∃ front back, text = front ++ (core ++ back) ∧
    (∀ c ∈ front, isBlank c = true) ∧ ∀ c ∈ back, isBlank c = true

theorem Padded.refl (text : List Char) : Padded text text := ⟨[], [], by simp⟩

theorem isBlank_of_visible {c : Char} (low : 33 ≤ c.toNat) (high : c.toNat ≤ 126) :
    isBlank c = false := by
  simp [isBlank]
  omega

theorem blank_of_mem_takeWhile {c : Char} {text : List Char} (h : c ∈ text.takeWhile isBlank) :
    isBlank c = true :=
  List.all_eq_true.mp List.all_takeWhile c h

theorem padded_trimChars (text : List Char) : Padded text (trimChars text) := by
  refine ⟨text.takeWhile isBlank, ((text.dropWhile isBlank).reverse.takeWhile isBlank).reverse, ?_,
    fun c hc => blank_of_mem_takeWhile hc,
    fun c hc => blank_of_mem_takeWhile (List.mem_reverse.mp hc)⟩
  rw [trimChars, ← List.reverse_append, List.takeWhile_append_dropWhile, List.reverse_reverse,
    List.takeWhile_append_dropWhile]

/-- No blank is dropped where there is none in front. -/
theorem dropWhile_solid {core back : List Char} (solid : ∀ c ∈ core, isBlank c = false)
    (nonempty : core ≠ []) : (core ++ back).dropWhile isBlank = core ++ back := by
  cases core with
  | nil => exact absurd rfl nonempty
  | cons c cs => simp [solid c List.mem_cons_self]

/-- What holds no blank is found again. -/
theorem Padded.trimChars_eq {text core : List Char} (padded : Padded text core)
    (solid : ∀ c ∈ core, isBlank c = false) (nonempty : core ≠ []) : trimChars text = core := by
  obtain ⟨front, back, rfl, before, behind⟩ := padded
  have solid' : ∀ c ∈ core.reverse, isBlank c = false := fun c hc =>
    solid c (List.mem_reverse.mp hc)
  have behind' : ∀ c ∈ back.reverse, isBlank c = true := fun c hc =>
    behind c (List.mem_reverse.mp hc)
  have whole := @dropWhile_solid core.reverse [] solid' (by simpa using nonempty)
  rw [List.append_nil] at whole
  rw [trimChars, List.dropWhile_append_of_pos before, dropWhile_solid solid nonempty,
    List.reverse_append, List.dropWhile_append_of_pos behind', whole, List.reverse_reverse]

/-- What holds of a text without blanks holds of a trimmed text when it holds of something that the
text is with blanks around it. -/
theorem trimChars_iff {P : List Char → Prop}
    (solid : ∀ core, P core → core ≠ [] ∧ ∀ c ∈ core, isBlank c = false) {text : List Char} :
    P (trimChars text) ↔ ∃ core, Padded text core ∧ P core := by
  constructor
  · intro h
    exact ⟨trimChars text, padded_trimChars text, h⟩
  · rintro ⟨core, padded, h⟩
    obtain ⟨nonempty, unblank⟩ := solid core h
    rw [padded.trimChars_eq unblank nonempty]
    exact h

end Text

end WorkflowCompiler
