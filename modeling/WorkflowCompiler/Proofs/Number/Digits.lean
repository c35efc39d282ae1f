import WorkflowCompiler.Number.Integer

/-!
# Digits that are read back

The digits of a natural number in decimal are read as that number, and none but zero begins with a
zero.
-/
namespace WorkflowCompiler

namespace Integer

theorem digit?_eq {c : Char} (h : c.isDigit = true) : digit? c = some (c.toNat - '0'.toNat) := by
  unfold Char.isDigit at h
  rw [Bool.and_eq_true, decide_eq_true_eq, decide_eq_true_eq] at h
  exact if_pos h

theorem digitsOnto_eq {digits : List Char} (h : ∀ c ∈ digits, c.isDigit = true) (n : Nat) :
    digitsOnto n digits = some (Nat.ofDigitChars 10 digits n) := by
  induction digits generalizing n with
  | nil => simp [digitsOnto]
  | cons c cs ih =>
    rw [digitsOnto, digit?_eq (h c List.mem_cons_self), Nat.ofDigitChars_cons]
    exact ih (fun d hd => h d (List.mem_cons_of_mem _ hd)) _

theorem isDigit_toDigits {n : Nat} : ∀ c ∈ Nat.toDigits 10 n, c.isDigit = true := fun _ hc =>
  Nat.isDigit_of_mem_toDigits (by decide) (by decide) hc

theorem exists_toDigits (n : Nat) :
    ∃ c cs, Nat.toDigits 10 n = c :: cs ∧ c.isDigit = true := by
  cases h : Nat.toDigits 10 n with
  | nil => exact absurd h Nat.toDigits_ne_nil
  | cons c cs => exact ⟨c, cs, rfl, isDigit_toDigits c (h ▸ List.mem_cons_self)⟩

theorem digits?_toDigits (n : Nat) : digits? (Nat.toDigits 10 n) = some n := by
  obtain ⟨c, cs, h, -⟩ := exists_toDigits n
  have onto := digitsOnto_eq (isDigit_toDigits (n := n)) 0
  rw [Nat.ofDigitChars_ten_toDigits] at onto
  rw [h] at onto ⊢
  exact onto

/-- A number other than zero begins with another digit than zero. -/
theorem head?_toDigits {n : Nat} (h : n ≠ 0) : (Nat.toDigits 10 n).head? ≠ some '0' := by
  induction n using Nat.strongRecOn with
  | ind n ih =>
    by_cases small : n < 10
    · rw [Nat.toDigits_of_lt_base small]
      simpa using h
    · have front := ih (n / 10) (by omega) (by omega)
      rw [Nat.toDigits_of_base_le (by decide) (by omega)]
      obtain ⟨c, cs, digits, -⟩ := exists_toDigits (n / 10)
      simpa [digits] using front

theorem toList_ofNat (n : Nat) : (toString (n : Int)).toList = Nat.toDigits 10 n := by
  simp [Int.repr_eq_if]

theorem toList_negSucc (n : Nat) :
    (toString (Int.negSucc n)).toList = '-' :: Nat.toDigits 10 (n + 1) := by
  simp [Int.repr_eq_if]

end Integer

end WorkflowCompiler
