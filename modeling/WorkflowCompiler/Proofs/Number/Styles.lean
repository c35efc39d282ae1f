import WorkflowCompiler.Number.Style
import WorkflowCompiler.Proofs.Number.Decimals

/-!
# The texts of finite doubles

In every style the magnitude of a finite double is written as digits with a fraction, an exponent or
both.
-/
namespace WorkflowCompiler

namespace Decimal

open Integer (Digits)

/-- Which texts are a fraction that may be absent. -/
inductive Fraction : List Char → Prop
  | none : Fraction []
  | some {fraction : List Char} (digits : Digits fraction) : Fraction ('.' :: fraction)

/-- Whether a text is digits with an optional fraction and exponent. Digits alone begin with no zero
but the number zero itself. -/
inductive Written : List Char → Prop
  | intro {whole fraction power : List Char} {x : Int} (digits : Digits whole)
      (behind : Fraction fraction) (scaled : Power power x)
      (plain : fraction = [] → power = [] → whole.head? = some '0' → whole = ['0']) :
      Written (whole ++ (fraction ++ power))

theorem written_toDigits (n : Nat) : Written (Nat.toDigits 10 n) := by
  have written := Written.intro (Integer.digits_toDigits n) .none .none fun _ _ zero => by
    by_cases null : n = 0
    · subst null
      rfl
    · exact absurd zero (Integer.head?_toDigits null)
  simpa using written

theorem Written.exists_head {text : List Char} (written : Written text) :
    ∃ c rest, text = c :: rest ∧ c.isDigit = true := by
  obtain ⟨⟨nonempty, each⟩, -, -, -⟩ := written
  rename_i whole fraction power x
  cases whole with
  | nil => exact absurd rfl nonempty
  | cons c cs => exact ⟨c, _, rfl, each c List.mem_cons_self⟩

end Decimal

namespace NumberStyle

open Integer (Digits)
open Decimal (Fraction Power Written)

theorem isDigit_zeros (n : Nat) : ∀ c ∈ zeros n, c.isDigit = true := by
  intro c hc
  rw [List.eq_of_mem_replicate hc]
  rfl

theorem digits_behind_zeros {digits : List Char} (h : Digits digits) (n : Nat) :
    Digits (zeros n ++ digits) :=
  ⟨by simp [h.nonempty], List.forall_mem_append.mpr ⟨isDigit_zeros n, h.each⟩⟩

theorem exponentText_power (style : NumberStyle) (x : Int) :
    ∃ y, Power (style.exponentText x) y := by
  obtain ⟨sign, negative, signed, eq⟩ : ∃ sign negative, Integer.Sign sign negative ∧
      (if x < 0 then ['-'] else if style.plusSign then ['+'] else []) = sign := by
    split
    · exact ⟨_, _, .minus, rfl⟩
    split
    · exact ⟨_, _, .plus, rfl⟩
    · exact ⟨_, _, .none, rfl⟩
  have digits := digits_behind_zeros (Integer.digits_toDigits x.natAbs)
    (style.exponentWidth - (Nat.toDigits 10 x.natAbs).length)
  have power := Power.some (.inl rfl) (.intro signed digits)
  rw [exponentText, eq, List.cons_append, List.cons_append, List.append_assoc]
  exact ⟨_, power⟩

/-- What is left of digits behind the first ones, or a single zero. -/
theorem digits_drop {digits : List Char} (h : Digits digits) (n : Nat) :
    Digits (if (digits.drop n).isEmpty then ['0'] else digits.drop n) := by
  split
  · exact Integer.digits_zero
  · next some => exact ⟨by simpa using some, fun c hc => h.each c (List.mem_of_mem_drop hc)⟩

theorem digits_take {digits : List Char} (h : Digits digits) (n k : Nat) :
    Digits (digits.take (n + 1) ++ zeros k) := by
  refine ⟨by simp [h.nonempty], List.forall_mem_append.mpr ⟨fun c hc => ?_, isDigit_zeros k⟩⟩
  exact h.each c (List.mem_of_mem_take hc)

theorem positional_written {digits : List Char} (h : Digits digits) (x : Int) :
    Written (positional digits x) := by
  unfold positional
  split
  · have behind := Fraction.some (digits_behind_zeros h (-x - 1).toNat)
    simpa using Written.intro Integer.digits_zero behind .none (by simp)
  · have whole := digits_take h x.toNat (x.toNat + 1 - digits.length)
    have behind := Fraction.some (digits_drop h (x.toNat + 1))
    simpa using Written.intro whole behind .none (by simp)

theorem scientific_written (style : NumberStyle) {digits : List Char} (h : Digits digits)
    (x : Int) : Written (style.scientific digits x) := by
  obtain ⟨y, power⟩ := style.exponentText_power x
  have whole : Digits (digits.take 1) := by simpa [zeros] using digits_take h 0 0
  have some : style.exponentText x ≠ [] := by simp [exponentText]
  have written {fraction : List Char} (behind : Fraction fraction) :
      Written (digits.take 1 ++ (fraction ++ style.exponentText x)) :=
    .intro whole behind power fun _ none => absurd none some
  unfold scientific
  dsimp only
  rw [List.append_assoc]
  split
  · exact written .none
  · next rest =>
    have fraction := digits_drop h 1
    rw [if_neg rest] at fraction
    exact written (.some fraction)

theorem magnitude_written (style : NumberStyle) (m : Nat) (e : Int) :
    Written (style.magnitude m e) := by
  unfold magnitude
  dsimp only
  have digits := Integer.digits_toDigits (Decimal.shortest style.tie m e).digits
  split
  · exact positional_written digits _
  · exact scientific_written style digits _

/-- A finite double is written as digits with a fraction or an exponent, behind an optional
minus. -/
theorem render_finite (style : NumberStyle) (negative : Bool) (m : Nat) (e : Int) :
    ∃ text, Written text ∧
      (style.render (.finite negative m e)).toList = (if negative then ['-'] else []) ++ text := by
  refine ⟨if m = 0 then ['0', '.', '0'] else style.magnitude m e, ?_, String.toList_ofList⟩
  split
  · exact .intro Integer.digits_zero (.some Integer.digits_zero) .none (by simp)
  · exact magnitude_written style m e

end NumberStyle

end WorkflowCompiler
