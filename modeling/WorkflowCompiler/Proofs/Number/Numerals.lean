import WorkflowCompiler.Proofs.Number.Digits
import WorkflowCompiler.Proofs.Text.Blank

/-!
# Integers that texts denote

A text denotes an integer when it is made of digits behind an optional sign. Reading accepts just
these texts, as many zeros as there may be in front; writing gives one of them back.
-/
namespace WorkflowCompiler

namespace Integer

/-- Whether a text is made of digits, one at least. -/
structure Digits (text : List Char) : Prop where
  nonempty : text ≠ []
  each : ∀ c ∈ text, c.isDigit = true

/-- Which texts are a sign, and whether it is a minus. -/
inductive Sign : List Char → Bool → Prop
  | none : Sign [] false
  | plus : Sign ['+'] false
  | minus : Sign ['-'] true

/-- Which integer a text denotes: digits behind an optional sign. -/
inductive Numeral : List Char → Int → Prop
  | intro {sign digits : List Char} {negative : Bool} (signed : Sign sign negative)
      (unsigned : Digits digits) :
      Numeral (sign ++ digits)
        (if negative then -(Nat.ofDigitChars 10 digits 0 : Int) else Nat.ofDigitChars 10 digits 0)

/-- Whether a text does not begin with a sign. -/
def Unsigned (text : List Char) : Prop := ∀ c ∈ text.head?, c ≠ '-' ∧ c ≠ '+'

theorem digit_bounds {c : Char} (digit : c.isDigit = true) : 48 ≤ c.toNat ∧ c.toNat ≤ 57 := by
  unfold Char.isDigit at digit
  rw [Bool.and_eq_true, decide_eq_true_eq, decide_eq_true_eq] at digit
  exact digit

theorem isDigit_of_digit? {c : Char} {d : Nat} (h : digit? c = some d) : c.isDigit = true := by
  unfold digit? at h
  split at h
  · next range =>
    unfold Char.isDigit
    rw [Bool.and_eq_true, decide_eq_true_eq, decide_eq_true_eq]
    exact range
  · cases h

theorem isDigit_of_digitsOnto {cs : List Char} {acc n : Nat} (h : digitsOnto acc cs = some n) :
    ∀ c ∈ cs, c.isDigit = true := by
  induction cs generalizing acc with
  | nil => simp
  | cons c cs ih =>
    obtain ⟨d, digit, rest⟩ := Option.bind_eq_some_iff.mp h
    exact List.forall_mem_cons.mpr ⟨isDigit_of_digit? digit, ih rest⟩

theorem digits?_eq_some_iff {cs : List Char} {n : Nat} :
    digits? cs = some n ↔ Digits cs ∧ Nat.ofDigitChars 10 cs 0 = n := by
  cases cs with
  | nil =>
    constructor
    · intro h
      cases h
    · intro h
      exact absurd rfl h.1.nonempty
  | cons c cs =>
    constructor
    · intro h
      have each := isDigit_of_digitsOnto h
      have onto := digitsOnto_eq each 0
      exact ⟨⟨List.cons_ne_nil c cs, each⟩, Option.some.inj (onto.symm.trans h)⟩
    · rintro ⟨digits, rfl⟩
      exact digitsOnto_eq digits.each 0

theorem Digits.unsigned {text : List Char} (digits : Digits text) : Unsigned text := by
  intro c hc
  have digit := digits.each c (List.mem_of_mem_head? hc)
  constructor <;> rintro rfl <;> exact absurd digit (by decide)

/-- Every text is one that does not begin with a sign, or such a sign and some text. -/
theorem exists_sign (text : List Char) :
    ∃ sign negative rest, Sign sign negative ∧ (sign = [] → Unsigned rest) ∧
      text = sign ++ rest := by
  by_cases minus : text.head? = some '-'
  · obtain ⟨rest, rfl⟩ := List.head?_eq_some_iff.mp minus
    exact ⟨_, _, rest, .minus, by simp, rfl⟩
  by_cases plus : text.head? = some '+'
  · obtain ⟨rest, rfl⟩ := List.head?_eq_some_iff.mp plus
    exact ⟨_, _, rest, .plus, by simp, rfl⟩
  refine ⟨_, _, text, .none, fun _ c hc => ⟨?_, ?_⟩, rfl⟩
  · rintro rfl
    exact minus hc
  · rintro rfl
    exact plus hc

theorem signed?_append {sign rest : List Char} {negative : Bool} (signed : Sign sign negative)
    (first : sign = [] → Unsigned rest) :
    signed? (sign ++ rest) =
      (digits? rest).map fun n : Nat => if negative then -(n : Int) else n := by
  have lifted (f : Int → Int) : ((digits? rest : Option Nat) : Option Int).map f =
      (digits? rest).map fun n : Nat => f n := by
    cases digits? rest <;> rfl
  cases signed with
  | minus => exact lifted fun n => -n
  | plus => exact lifted fun n => n
  | none =>
    have unsigned := first rfl
    rw [List.nil_append]
    unfold signed?
    split
    · exact absurd rfl (unsigned '-' rfl).1
    · exact absurd rfl (unsigned '+' rfl).2
    · exact lifted fun n => n

/-- Reading accepts the texts that denote an integer. -/
theorem signed?_eq_some_iff {cs : List Char} {n : Int} : signed? cs = some n ↔ Numeral cs n := by
  constructor
  · obtain ⟨sign, negative, rest, signed, first, rfl⟩ := exists_sign cs
    rw [signed?_append signed first]
    intro h
    obtain ⟨m, found, rfl⟩ := Option.map_eq_some_iff.mp h
    obtain ⟨digits, rfl⟩ := digits?_eq_some_iff.mp found
    exact .intro signed digits
  · rintro ⟨signed, digits⟩
    have found := digits?_eq_some_iff.mpr ⟨digits, rfl⟩
    rw [signed?_append signed fun _ => digits.unsigned, found]
    rfl

theorem readSigned_eq_some_iff {text : String} {n : Int} :
    readSigned text = some n ↔ Numeral text.toList n ∧ minSigned ≤ n ∧ n ≤ maxSigned := by
  rw [readSigned, Option.filter_eq_some_iff, signed?_eq_some_iff, decide_eq_true_eq]

theorem digits_toDigits (n : Nat) : Digits (Nat.toDigits 10 n) :=
  ⟨Nat.toDigits_ne_nil, isDigit_toDigits⟩

theorem digits_zero : Digits ['0'] := ⟨by simp, by simp⟩

/-- An integer is written as a text that denotes it. -/
theorem numeral_toString (n : Int) : Numeral (toString n).toList n := by
  cases n with
  | ofNat n =>
    have numeral := Numeral.intro .none (digits_toDigits n)
    rw [Nat.ofDigitChars_ten_toDigits] at numeral
    rw [Int.ofNat_eq_natCast, toList_ofNat]
    exact numeral
  | negSucc n =>
    have numeral := Numeral.intro .minus (digits_toDigits (n + 1))
    rw [Nat.ofDigitChars_ten_toDigits] at numeral
    rw [toList_negSucc]
    exact numeral

theorem isBlank_of_isDigit {c : Char} (digit : c.isDigit = true) : Text.isBlank c = false := by
  obtain ⟨low, high⟩ := digit_bounds digit
  exact Text.isBlank_of_visible (by omega) (by omega)

theorem Sign.solid {sign : List Char} {negative : Bool} (signed : Sign sign negative) :
    ∀ c ∈ sign, Text.isBlank c = false := by
  cases signed <;> simp [Text.isBlank]

/-- There is something in a text that denotes an integer, and no blank. -/
theorem Numeral.solid {text : List Char} {n : Int} (numeral : Numeral text n) :
    text ≠ [] ∧ ∀ c ∈ text, Text.isBlank c = false := by
  obtain ⟨signed, digits⟩ := numeral
  refine ⟨by simp [digits.nonempty], List.forall_mem_append.mpr ⟨signed.solid, fun c hc => ?_⟩⟩
  exact isBlank_of_isDigit (digits.each c hc)

end Integer

end WorkflowCompiler
