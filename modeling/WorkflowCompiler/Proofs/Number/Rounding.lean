import Mathlib.Algebra.Order.Field.Power
import Mathlib.Tactic.Linarith
import Mathlib.Tactic.NormNum
import Mathlib.Tactic.Positivity
import Mathlib.Tactic.Ring
import WorkflowCompiler.Proofs.Number.Decimals

/-!
# Where doubles end

A ratio becomes an infinity when it is not less than the middle between the greatest double and the
power of two behind it, and a finite double otherwise. A decimal does the same, however long its
digits are and however large its exponent is. Besides such decimals, only names denote a double that
is not finite.
-/
namespace WorkflowCompiler

namespace Decimal

/-- The number that a decimal is. -/
def value (d : Decimal) : ℚ := d.digits * 10 ^ d.exponent

end Decimal

namespace Double

/-- The middle between the greatest double and `2^1024`. -/
def overflow : ℚ := (2 ^ 54 - 1) * 2 ^ 970

/-- Whether the double is neither an infinity nor "not a number". -/
def Finite : Double → Prop
  | .finite _ _ _ => True
  | _ => False

/-- Which texts go beyond every finite double: names, and decimals from the overflow on. -/
inductive Boundless : List Char → Prop
  | name {sign text : List Char} {negative : Bool} (signed : Integer.Sign sign negative)
      (word : Name "nan" text ∨ Name "inf" text ∨ Name "infinity" text) : Boundless (sign ++ text)
  | large {sign text : List Char} {negative : Bool} {d : Decimal}
      (signed : Integer.Sign sign negative) (numeral : Decimal.Numeral text d)
      (reached : overflow ≤ d.value) : Boundless (sign ++ text)

theorem twoTo_eq (n : Nat) : twoTo n = 2 ^ n := rfl

theorem tenTo_eq (n : Nat) : tenTo n = 10 ^ n := rfl

/-! ## Rounding -/

/-- Rounding stays below an even number just below the middle in front of that number. -/
theorem divideToEven_lt_iff {num den k : Nat} (pos : 0 < den) (even : k % 2 = 0) :
    divideToEven num den < k ↔ 2 * num + den < 2 * (k * den) := by
  have parts := Nat.div_add_mod num den
  have small := Nat.mod_lt num pos
  simp only [divideToEven, Bool.or_eq_true, Bool.and_eq_true, decide_eq_true_eq, beq_iff_eq]
  generalize num / den = q at *
  generalize num % den = r at *
  have product : q * den = den * q := Nat.mul_comm q den
  rcases Nat.lt_trichotomy (q + 1) k with below | rfl | above
  · have room : (q + 2) * den ≤ k * den := Nat.mul_le_mul_right den below
    rw [Nat.add_mul] at room
    split <;> omega
  · rw [Nat.add_mul]
    split <;> omega
  · have room : k * den ≤ q * den := Nat.mul_le_mul_right den (by omega)
    split <;> omega

theorem divideToEven_le {num den k : Nat} (below : num < k * den) : divideToEven num den ≤ k := by
  have floor : num / den < k := Nat.div_lt_of_lt_mul (Nat.mul_comm k den ▸ below)
  simp only [divideToEven]
  split <;> omega

theorem scaleDown_spec {num den : Nat} (pos : 0 < den) (e : Int) :
    0 < (scaleDown num den e).2 ∧
      ((scaleDown num den e).1 : ℚ) / (scaleDown num den e).2 = num / den / 2 ^ e := by
  unfold scaleDown
  split
  · next h =>
    obtain ⟨k, rfl⟩ := Int.eq_ofNat_of_zero_le h
    refine ⟨Nat.mul_pos pos (Nat.two_pow_pos _), ?_⟩
    simp [twoTo, div_div]
  · next h =>
    obtain ⟨k, hk⟩ : ∃ k : Nat, e = -(k : Int) := ⟨(-e).toNat, by omega⟩
    subst hk
    refine ⟨pos, ?_⟩
    simp [twoTo]
    ring

theorem scaleDown_le_iff {num den : Nat} (pos : 0 < den) (e : Int) :
    (scaleDown num den e).2 * twoTo 53 ≤ (scaleDown num den e).1 ↔
      (2 : ℚ) ^ (e + 53) ≤ num / den := by
  obtain ⟨pos', ratio⟩ := @scaleDown_spec num _ pos e
  have unit : (0 : ℚ) < 2 ^ e := by positivity
  have pos' : (0 : ℚ) < (scaleDown num den e).2 := by exact_mod_cast pos'
  have power : (2 : ℚ) ^ (e + 53) = 2 ^ 53 * 2 ^ e := by
    rw [zpow_add₀ two_ne_zero, mul_comm]
    norm_cast
  rw [power, ← le_div_iff₀ unit, ← ratio, le_div_iff₀ pos', mul_comm]
  exact_mod_cast Iff.rfl

/-- The two lengths in binary tell a ratio but for a factor of two to either side. -/
theorem log2_bounds {num den : Nat} (some : num ≠ 0) (pos : 0 < den) :
    (2 : ℚ) ^ ((num.log2 : Int) - den.log2 - 1) ≤ num / den ∧
      (num / den : ℚ) < 2 ^ ((num.log2 : Int) - den.log2 + 1) := by
  have pos' : (0 : ℚ) < den := by exact_mod_cast pos
  have numLow : (2 : ℚ) ^ num.log2 ≤ num := by exact_mod_cast Nat.log2_self_le some
  have numHigh : (num : ℚ) < 2 ^ (num.log2 + 1) := by exact_mod_cast Nat.lt_log2_self
  have denLow : (2 : ℚ) ^ den.log2 ≤ den := by exact_mod_cast Nat.log2_self_le pos.ne'
  have denHigh : (den : ℚ) < 2 ^ (den.log2 + 1) := by exact_mod_cast Nat.lt_log2_self
  constructor
  · have power : (2 : ℚ) ^ ((num.log2 : Int) - den.log2 - 1) =
        2 ^ num.log2 / 2 ^ (den.log2 + 1) := by
      rw [eq_div_iff (by positivity), ← zpow_natCast, ← zpow_natCast, ← zpow_add₀ two_ne_zero]
      congr 1
      push_cast
      ring
    rw [power, div_le_div_iff₀ (by positivity) pos']
    exact mul_le_mul numLow denHigh.le (by positivity) (by positivity)
  · have power : (2 : ℚ) ^ ((num.log2 : Int) - den.log2 + 1) =
        2 ^ (num.log2 + 1) / 2 ^ den.log2 := by
      rw [eq_div_iff (by positivity), ← zpow_natCast, ← zpow_natCast, ← zpow_add₀ two_ne_zero]
      congr 1
      push_cast
      ring
    rw [power, div_lt_div_iff₀ pos' (by positivity)]
    exact mul_lt_mul numHigh denLow (by positivity) (by positivity)

/-- The exponent leaves a significand below `2^53`, and one of 53 bits unless it is the least. -/
theorem exponentOf_spec {num den : Nat} (some : num ≠ 0) (pos : 0 < den) :
    (num / den : ℚ) < 2 ^ (exponentOf num den + 53) ∧
      (minExponent < exponentOf num den → (2 : ℚ) ^ (exponentOf num den + 52) ≤ num / den) := by
  obtain ⟨low, high⟩ := log2_bounds some pos
  set guess : Int := max minExponent ((num.log2 : Int) - den.log2 - 53) with hguess
  have value : exponentOf num den =
      if (2 : ℚ) ^ (guess + 53) ≤ num / den then guess + 1 else guess := by
    simp only [exponentOf, scaleDown_le_iff pos, ← hguess]
  have enough : (num.log2 : Int) - den.log2 - 53 ≤ guess := le_max_right _ _
  rw [value]
  split
  · next reached =>
    refine ⟨high.trans_le (zpow_le_zpow_right₀ one_le_two (by omega)), fun _ => ?_⟩
    rw [show guess + 1 + 52 = guess + 53 by ring]
    exact reached
  · next short =>
    refine ⟨not_le.mp short, fun above => ?_⟩
    have exact' : guess = (num.log2 : Int) - den.log2 - 53 := by omega
    rw [show guess + 52 = (num.log2 : Int) - den.log2 - 1 by omega]
    exact low

/-- The significand at the exponent of a ratio, before it is carried over. -/
def significandOf (num den : Nat) : Nat :=
  divideToEven (scaleDown num den (exponentOf num den)).1 (scaleDown num den (exponentOf num den)).2

theorem significandOf_le {num den : Nat} (some : num ≠ 0) (pos : 0 < den) :
    significandOf num den ≤ twoTo 53 := by
  obtain ⟨below, -⟩ := exponentOf_spec some pos
  refine divideToEven_le (not_le.mp fun reached => ?_)
  exact not_le.mpr below ((scaleDown_le_iff pos _).mp (Nat.mul_comm _ _ ▸ reached))

/-- The overflow in units of the last place of the greatest double. -/
theorem overflow_eq : overflow = (2 ^ 53 - 1 / 2) * 2 ^ maxExponent := by
  have power : (2 : ℚ) ^ maxExponent = 2 ^ 970 * 2 := by
    rw [show maxExponent = ((971 : Nat) : Int) from rfl, zpow_natCast, pow_succ]
  rw [overflow, power]
  generalize (2 : ℚ) ^ 970 = unit
  ring

/-- At the greatest exponent the significand is carried over from the overflow on. -/
theorem significandOf_lt_iff {num den : Nat} (pos : 0 < den)
    (greatest : exponentOf num den = maxExponent) :
    significandOf num den < twoTo 53 ↔ (num / den : ℚ) < overflow := by
  obtain ⟨pos', ratio⟩ := @scaleDown_spec num _ pos maxExponent
  rw [significandOf, greatest, divideToEven_lt_iff pos' (by decide), twoTo_eq]
  generalize scaleDown num den maxExponent = scaled at *
  have pos' : (0 : ℚ) < scaled.2 := by exact_mod_cast pos'
  have unit : (0 : ℚ) < 2 ^ maxExponent := by positivity
  rw [overflow_eq, ← div_lt_iff₀ unit, ← ratio, div_lt_iff₀ pos', sub_mul]
  have cast : 2 * scaled.1 + scaled.2 < 2 * (2 ^ 53 * scaled.2) ↔
      2 * (scaled.1 : ℚ) + scaled.2 < 2 * (2 ^ 53 * scaled.2) := by
    exact_mod_cast Iff.rfl
  rw [cast]
  constructor <;> intro h <;> linarith

theorem ofRatio_of_ne_zero (negative : Bool) {num den : Nat} (some : num ≠ 0) :
    ofRatio negative num den =
      if significandOf num den = twoTo 53 then
        if maxExponent < exponentOf num den + 1 then .infinite negative
        else .finite negative (twoTo 52) (exponentOf num den + 1)
      else if maxExponent < exponentOf num den then .infinite negative
      else .finite negative (significandOf num den) (exponentOf num den) := by
  unfold ofRatio significandOf
  rw [if_neg some]
  -- The pair is taken apart by hand: otherwise the checker evaluates the exponent to do so.
  extract_lets e
  rcases scaleDown num den e with ⟨n, d⟩
  dsimp only
  by_cases carried : divideToEven n d = twoTo 53
  · rw [if_pos carried, if_pos carried]
  · rw [if_neg carried, if_neg carried]

/-- A ratio becomes a finite double below the overflow and an infinity from there on. -/
theorem ofRatio_cases (negative : Bool) (num : Nat) {den : Nat} (pos : 0 < den) :
    (∃ m e, ofRatio negative num den = .finite negative m e ∧ (num / den : ℚ) < overflow) ∨
      ofRatio negative num den = .infinite negative ∧ overflow ≤ (num / den : ℚ) := by
  have unit : (0 : ℚ) < 2 ^ maxExponent := by positivity
  by_cases zero : num = 0
  · subst zero
    refine .inl ⟨0, minExponent, rfl, ?_⟩
    rw [overflow_eq, Nat.cast_zero, zero_div]
    linarith
  obtain ⟨high, low⟩ := exponentOf_spec zero pos
  rw [ofRatio_of_ne_zero negative zero]
  rcases lt_trichotomy (exponentOf num den) maxExponent with below | greatest | above
  · have small : (num / den : ℚ) < overflow := by
      have bound : (2 : ℚ) ^ (exponentOf num den + 53) ≤ 2 ^ (maxExponent + 52) :=
        zpow_le_zpow_right₀ one_le_two (by omega)
      rw [zpow_add₀ two_ne_zero maxExponent] at bound
      norm_num at bound
      rw [overflow_eq]
      linarith
    left
    split
    · exact ⟨_, _, if_neg (by omega), small⟩
    · exact ⟨_, _, if_neg (by omega), small⟩
  · rcases (significandOf_le zero pos).lt_or_eq with kept | carried
    · rw [if_neg kept.ne, if_neg (by omega)]
      exact .inl ⟨_, _, rfl, (significandOf_lt_iff pos greatest).mp kept⟩
    · rw [if_pos carried, if_pos (by omega)]
      have carry := (significandOf_lt_iff pos greatest).not.mp carried.not_lt
      exact .inr ⟨rfl, not_lt.mp carry⟩
  · have large : overflow ≤ (num / den : ℚ) := by
      have bound : (2 : ℚ) ^ (maxExponent + 53) ≤ 2 ^ (exponentOf num den + 52) :=
        zpow_le_zpow_right₀ one_le_two (by omega)
      have reached := low ((by decide : minExponent < maxExponent).trans above)
      rw [zpow_add₀ two_ne_zero maxExponent] at bound
      norm_num at bound
      rw [overflow_eq]
      linarith
    rw [if_pos (above.trans (lt_add_one _)), if_pos above, ite_self]
    exact .inr ⟨rfl, large⟩

/-! ## Decimals -/

theorem width_bounds {n : Nat} (some : n ≠ 0) :
    (10 : ℚ) ^ (((Nat.toDigits 10 n).length : Int) - 1) ≤ n ∧
      (n : ℚ) < 10 ^ ((Nat.toDigits 10 n).length : Int) := by
  have pos : 0 < (Nat.toDigits 10 n).length := Nat.length_toDigits_pos
  have high := (Nat.length_toDigits_le_iff (n := n) (by decide : 1 < 10) pos).mp le_rfl
  refine ⟨?_, by exact_mod_cast high⟩
  obtain ⟨k, length⟩ : ∃ k, (Nat.toDigits 10 n).length = k + 1 := ⟨_, (Nat.succ_pred pos.ne').symm⟩
  rw [length, Nat.cast_add, Nat.cast_one, add_sub_cancel_right]
  cases k with
  | zero => exact_mod_cast Nat.one_le_iff_ne_zero.mpr some
  | succ k =>
    have low := (Nat.length_toDigits_le_iff (n := n) (by decide : 1 < 10) k.succ_pos).not.mp
      (by omega)
    exact_mod_cast not_lt.mp low

theorem one_lt_overflow : 1 < overflow := by
  have unit : (1 : ℚ) ≤ 2 ^ 970 := one_le_pow₀ one_le_two
  rw [overflow]
  generalize (2 : ℚ) ^ 970 = unit at *
  linarith

theorem overflow_le_power : overflow ≤ 10 ^ (310 : Int) := by
  have bound : ((twoTo 1024 : Nat) : ℚ) ≤ (tenTo 310 : Nat) := Nat.cast_le.mpr (by decide +kernel)
  rw [twoTo_eq, tenTo_eq, Nat.cast_pow, Nat.cast_pow, Nat.cast_ofNat, Nat.cast_ofNat] at bound
  calc overflow ≤ 2 ^ 54 * 2 ^ 970 := mul_le_mul_of_nonneg_right (by norm_num) (by positivity)
    _ = 2 ^ 1024 := (pow_add 2 54 970).symm
    _ ≤ 10 ^ 310 := bound
    _ = 10 ^ (310 : Int) := (zpow_natCast 10 310).symm

/-- A decimal becomes a finite double below the overflow and an infinity from there on. -/
theorem ofDecimal_cases (negative : Bool) (d : Decimal) :
    (∃ m e, ofDecimal negative d.digits d.exponent = .finite negative m e ∧ d.value < overflow) ∨
      ofDecimal negative d.digits d.exponent = .infinite negative ∧ overflow ≤ d.value := by
  obtain ⟨digits, x⟩ := d
  simp only [Decimal.value, ofDecimal]
  by_cases zero : digits = 0
  · subst zero
    rw [if_pos rfl, Nat.cast_zero, zero_mul]
    exact .inl ⟨0, minExponent, rfl, one_pos.trans one_lt_overflow⟩
  obtain ⟨low, high⟩ := width_bounds zero
  have unit : (0 : ℚ) < 10 ^ x := by positivity
  rw [if_neg zero]
  split
  · next wide =>
    have reached : (10 : ℚ) ^ (310 : Int) ≤ digits * 10 ^ x :=
      calc (10 : ℚ) ^ (310 : Int) ≤ 10 ^ (((Nat.toDigits 10 digits).length : Int) - 1 + x) :=
            zpow_le_zpow_right₀ (by norm_num) (by omega)
        _ = 10 ^ (((Nat.toDigits 10 digits).length : Int) - 1) * 10 ^ x :=
            zpow_add₀ (by norm_num) _ _
        _ ≤ digits * 10 ^ x := mul_le_mul_of_nonneg_right low unit.le
    exact .inr ⟨rfl, overflow_le_power.trans reached⟩
  split
  · next narrow =>
    have small : digits * (10 : ℚ) ^ x < 1 :=
      calc digits * (10 : ℚ) ^ x < 10 ^ ((Nat.toDigits 10 digits).length : Int) * 10 ^ x :=
            mul_lt_mul_of_pos_right high unit
        _ = 10 ^ (((Nat.toDigits 10 digits).length : Int) + x) := (zpow_add₀ (by norm_num) _ _).symm
        _ ≤ 10 ^ (0 : Int) := zpow_le_zpow_right₀ (by norm_num) (by omega)
        _ = 1 := zpow_zero 10
    exact .inl ⟨0, minExponent, rfl, small.trans one_lt_overflow⟩
  split
  · next whole =>
    obtain ⟨k, rfl⟩ := Int.eq_ofNat_of_zero_le whole
    have ratio : ((digits * tenTo k : Nat) : ℚ) / (1 : Nat) = digits * 10 ^ (k : Int) := by
      rw [zpow_natCast, Nat.cast_one, div_one, tenTo_eq, Nat.cast_mul, Nat.cast_pow, Nat.cast_ofNat]
    rw [← ratio, Int.toNat_natCast]
    exact ofRatio_cases negative _ one_pos
  · next part =>
    obtain ⟨k, rfl⟩ : ∃ k : Nat, x = -k := ⟨(-x).toNat, by omega⟩
    have ratio : (digits : ℚ) / (tenTo k : Nat) = digits * 10 ^ (-k : Int) := by
      rw [zpow_neg, zpow_natCast, div_eq_mul_inv, tenTo_eq, Nat.cast_pow, Nat.cast_ofNat]
    rw [← ratio, neg_neg, Int.toNat_natCast]
    exact ofRatio_cases negative _ (Nat.pow_pos (by decide))

/-! ## Texts -/

/-- The texts beyond every finite double are those that denote another one. -/
theorem boundless_iff {text : List Char} :
    Boundless text ↔ ∃ value, Numeral text value ∧ ¬Finite value := by
  constructor
  · rintro (⟨signed, nan | infinity⟩ | ⟨signed, numeral, reached⟩)
    · exact ⟨_, .intro signed (.nan nan), not_false⟩
    · exact ⟨_, .intro signed (.infinity infinity), not_false⟩
    · rcases ofDecimal_cases _ _ with ⟨-, -, -, below⟩ | ⟨infinite, -⟩
      · exact absurd below reached.not_gt
      · exact ⟨_, .intro signed (.decimal numeral), by rw [infinite]; exact not_false⟩
  · rintro ⟨value, ⟨signed, magnitude⟩, beyond⟩
    cases magnitude with
    | nan name => exact .name signed (.inl name)
    | infinity name => exact .name signed (.inr name)
    | decimal numeral =>
      rcases ofDecimal_cases _ _ with ⟨m, e, finite, -⟩ | ⟨-, reached⟩
      · rw [finite] at beyond
        exact absurd trivial beyond
      · exact .large signed numeral reached

end Double

end WorkflowCompiler
