import WorkflowCompiler.Text.Case

/-!
# Lower case and ASCII

Of the characters beyond ASCII only the dotted capital I and the sign of the kelvin have a small form
that begins in ASCII. So a name without these two letters is the lower case of a text exactly when
the two agree but for the case of ASCII letters.
-/
namespace WorkflowCompiler

namespace Text

/-- Whether a character is a small ASCII letter that nothing beyond ASCII becomes in lower case. -/
def isPlain (c : Char) : Bool := c.isLower && c ≠ 'i' && c ≠ 'k'

theorem isPlain_iff {c : Char} :
    isPlain c = true ↔ (97 ≤ c.toNat ∧ c.toNat ≤ 122) ∧ c.toNat ≠ 105 ∧ c.toNat ≠ 107 := by
  have isLower : c.isLower = true ↔ 97 ≤ c.toNat ∧ c.toNat ≤ 122 := by
    unfold Char.isLower
    rw [Bool.and_eq_true, decide_eq_true_eq, decide_eq_true_eq]
    exact Iff.rfl
  simp only [isPlain, Bool.and_eq_true, decide_eq_true_eq, isLower, and_assoc, ne_eq,
    ← Char.toNat_inj]
  rfl

theorem mapped_lower {n : Nat} (beyond : 0x80 ≤ n) :
    ∃ first rest, mapped lowerRuns lowerSequences n = first :: rest ∧
      (0x80 ≤ first ∨ first = 105 ∨ first = 107) := by
  have runs : ∀ r ∈ lowerRuns, 0x80 ≤ (max r.1 0x80 : Int) + r.2.2.2 ∨
      r.1 = r.2.1 ∧ (r.1 : Int) + r.2.2.2 = 107 := by
    decide +kernel
  unfold mapped
  split
  · next s hs =>
    have hs := List.mem_of_find?_eq_some hs
    rw [lowerSequences, List.mem_singleton] at hs
    exact ⟨0x69, [0x307], by rw [hs], .inr (.inl rfl)⟩
  · split
    · next r hr =>
      have holds := List.find?_some hr
      simp only [Bool.and_eq_true, decide_eq_true_eq] at holds
      have hrun := runs r (List.mem_of_find?_eq_some hr)
      exact ⟨_, [], rfl, by omega⟩
    · exact ⟨n, [], rfl, .inl beyond⟩

theorem head_lowerChar {c : Char} (beyond : 0x80 ≤ c.toNat) :
    ∃ first rest, lowerChar c = first :: rest ∧ isPlain first = false := by
  obtain ⟨first, rest, run, hfirst⟩ := mapped_lower beyond
  refine ⟨Char.ofNat first, rest.map Char.ofNat, ?_, ?_⟩
  · rw [lowerChar, if_neg (Nat.not_lt.mpr beyond), run, List.map_cons]
  · have code : (Char.ofNat first).toNat = first ∨ (Char.ofNat first).toNat = 0 := by
      by_cases valid : first.isValidChar
      · exact .inl (congrArg Char.toNat (show Char.ofNat first = Char.ofNatAux first valid from
          dif_pos valid))
      · exact .inr (congrArg Char.toNat (show Char.ofNat first = Char.ofNat 0 from dif_neg valid))
    rw [Bool.eq_false_iff, ne_eq, isPlain_iff]
    omega

theorem lowerChar_of_ascii {c : Char} (ascii : c.toNat < 0x80) : lowerChar c = [c.toLower] := by
  rw [lowerChar, if_pos ascii]

theorem toLower_of_beyond {c : Char} (beyond : 0x80 ≤ c.toNat) : c.toLower = c := by
  have small : ¬(c.val ≥ 'A'.val ∧ c.val ≤ 'Z'.val) := by
    rintro ⟨-, h⟩
    exact absurd (show c.toNat ≤ 90 from h) (by omega)
  exact dif_neg small

/-- Plain letters come from ASCII letters alone. -/
theorem lowerFrom_eq_iff {cs plain : List Char} (h : ∀ d ∈ plain, isPlain d = true)
    (before : List Char) : lowerFrom before cs = plain ↔ cs.map Char.toLower = plain := by
  induction cs generalizing plain before with
  | nil => rfl
  | cons c cs ih =>
    rw [lowerFrom, List.map_cons]
    by_cases ascii : c.toNat < 0x80
    · have other : c ≠ 'Σ' := by
        rintro rfl
        exact absurd ascii (by decide)
      rw [if_neg other, lowerChar_of_ascii ascii, List.singleton_append]
      cases plain with
      | nil => simp
      | cons d plain =>
        rw [List.cons.injEq, List.cons.injEq, ih fun x hx => h x (List.mem_cons_of_mem _ hx)]
    · -- neither a small form nor the character itself is plain
      have beyond := Nat.not_lt.mp ascii
      have small : ∃ first rest, (if c = 'Σ' then
          if meetsCased before && !meetsCased cs then ['ς'] else ['σ'] else lowerChar c) =
            first :: rest ∧ isPlain first = false := by
        split
        · split <;> exact ⟨_, [], rfl, by decide⟩
        · exact head_lowerChar beyond
      obtain ⟨first, rest, run, hfirst⟩ := small
      rw [run, toLower_of_beyond beyond, List.cons_append]
      have hc : isPlain c = false := by
        rw [Bool.eq_false_iff, ne_eq, isPlain_iff]
        omega
      cases plain with
      | nil => simp
      | cons d plain =>
        have hd := h d List.mem_cons_self
        constructor <;> intro he <;> rw [List.cons.injEq] at he
        · rw [← he.1, hfirst] at hd
          cases hd
        · rw [← he.1, hc] at hd
          cases hd

/-- A plain name is the lower case of a text exactly when both agree in ASCII. -/
theorem lower_eq_iff {text name : String} (plain : ∀ c ∈ name.toList, isPlain c = true)
    (small : name.toList.map Char.toLower = name.toList) :
    lower text = name ↔ agreesInAscii text name = true := by
  rw [agreesInAscii, beq_iff_eq, small, ← lowerFrom_eq_iff plain [], lower]
  exact ⟨fun h => by rw [← h, String.toList_ofList], fun h => by rw [h, String.ofList_toList]⟩

end Text

end WorkflowCompiler
