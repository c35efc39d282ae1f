import WorkflowCompiler.Number.Power

/-!
# Doubles

The double-precision numbers as exact values: a sign, a significand below `2^53` and a power of
two. Every operation is the exact operation on ratios of naturals followed by one rounding to
nearest, a tie going to the even significand.
-/
namespace WorkflowCompiler

/-- A double. The value of `finite s m e` is `±m * 2^e`, with `m < 2^53`, `-1074 ≤ e ≤ 971`, and
`2^52 ≤ m` unless `e = -1074`. -/
inductive Double
  | finite (negative : Bool) (significand : Nat) (exponent : Int)
  | infinite (negative : Bool)
  | nan
  deriving DecidableEq, Repr

namespace Double

/-- The least exponent, that of the subnormal numbers and of zero. -/
def minExponent : Int := -1074

/-- The greatest exponent of a finite double. -/
def maxExponent : Int := 971

/-- Zero with a sign. -/
def zero (negative : Bool) : Double := .finite negative 0 minExponent

/-- The same magnitude with the other sign. -/
def neg : Double → Double
  | .finite s m e => .finite (!s) m e
  | .infinite s => .infinite (!s)
  | .nan => .nan

/-- Whether the double is one of the two zeros. -/
def isZero : Double → Bool
  | .finite _ m _ => m == 0
  | _ => false

/-- The quotient rounded to the nearest natural, a tie going to the even one. -/
def divideToEven (num den : Nat) : Nat :=
  let q := num / den
  let twice := 2 * (num % den)
  if den < twice || (twice == den && q % 2 == 1) then q + 1 else q

/-- The ratio `num / den` divided by `2^e`, as a ratio of naturals. -/
def scaleDown (num den : Nat) (e : Int) : Nat × Nat :=
  if 0 ≤ e then (num, den * twoTo e.toNat) else (num * twoTo (-e).toNat, den)

/-- The exponent at which a positive ratio has a significand of 53 bits, but at least
`minExponent`. -/
def exponentOf (num den : Nat) : Int :=
  let guess : Int := max minExponent ((num.log2 : Int) - den.log2 - 53)
  let (n, d) := scaleDown num den guess
  if d * twoTo 53 ≤ n then guess + 1 else guess

/-- The double nearest to `±num / den`, an infinity when that is too large. -/
def ofRatio (negative : Bool) (num den : Nat) : Double :=
  if num = 0 then zero negative
  else
    let e := exponentOf num den
    let (n, d) := scaleDown num den e
    let m := divideToEven n d
    let (m, e) := if m = twoTo 53 then (twoTo 52, e + 1) else (m, e)
    if maxExponent < e then .infinite negative else .finite negative m e

/-- The double nearest to a natural. -/
def ofNat (n : Nat) : Double := ofRatio false n 1

/-- The double nearest to `±digits * 10^exponent`. Powers beyond the range of doubles are settled
by counting digits, so that no large power is ever computed. -/
def ofDecimal (negative : Bool) (digits : Nat) (exponent : Int) : Double :=
  if digits = 0 then zero negative
  else
    let width : Int := (Nat.toDigits 10 digits).length
    if 310 < width + exponent then .infinite negative
    else if width + exponent < -330 then zero negative
    else if 0 ≤ exponent then ofRatio negative (digits * tenTo exponent.toNat) 1
    else ofRatio negative digits (tenTo (-exponent).toNat)

/-- The magnitude of a finite double as a ratio. -/
def ratio (m : Nat) (e : Int) : Nat × Nat :=
  if 0 ≤ e then (m * twoTo e.toNat, 1) else (m, twoTo (-e).toNat)

/-- The rounded product; both factors are finite or infinite and not a zero times an infinity. -/
def mul : Double → Double → Double
  | .finite s m e, .finite s' m' e' =>
      let (a, b) := ratio m e
      let (c, d) := ratio m' e'
      ofRatio (s != s') (a * c) (b * d)
  | .infinite s, .finite s' m _ => if m = 0 then .nan else .infinite (s != s')
  | .finite s m _, .infinite s' => if m = 0 then .nan else .infinite (s != s')
  | .infinite s, .infinite s' => .infinite (s != s')
  | _, _ => .nan

/-- The rounded quotient. -/
def div : Double → Double → Double
  | .finite s m e, .finite s' m' e' =>
      if m' = 0 then (if m = 0 then .nan else .infinite (s != s'))
      else
        let (a, b) := ratio m e
        let (c, d) := ratio m' e'
        ofRatio (s != s') (a * d) (b * c)
  | .infinite s, .finite s' _ _ => .infinite (s != s')
  | .finite s _ _, .infinite s' => zero (s != s')
  | _, _ => .nan

example : ofDecimal false 5 (-324) = .finite false 1 (-1074) := by decide +kernel
example : ofDecimal false 1 0 = .finite false (twoTo 52) (-52) := by decide +kernel
example : ofDecimal true 17976931348623158 292 = .finite true (twoTo 53 - 1) 971 := by
  decide +kernel
example : ofDecimal false 17976931348623159 292 = .infinite false := by decide +kernel

end Double

end WorkflowCompiler
