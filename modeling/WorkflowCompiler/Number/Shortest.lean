import WorkflowCompiler.Number.Double

/-!
# Shortest decimals

The fewest decimal digits that read back as a given double, and of those the nearest. The search
goes through the decimal grids from coarse to fine and tests the two neighbours of the value on
each, in exact arithmetic.
-/
namespace WorkflowCompiler

/-- The number `digits * 10^exponent`. -/
structure Decimal where
  digits : Nat
  exponent : Int
  deriving DecidableEq, Repr

/-- What to do when two decimals are equally near. -/
inductive Tie
  | toEven
  | up
  deriving DecidableEq, Repr

namespace Decimal

/-- Compares `a * 10^i` with `b * 2^j`. -/
def compareScaled (a : Nat) (i : Int) (b : Nat) (j : Int) : Ordering :=
  compare (a * tenTo i.toNat * twoTo (-j).toNat) (b * twoTo j.toNat * tenTo (-i).toNat)

/-- Whether the decimal lies among the reals that round to `m * 2^e`: from halfway to the
neighbour below to halfway to the neighbour above, the ends included when `m` is even. Below a
power of two the neighbour is only half as far away. -/
def readsBack (m : Nat) (e : Int) (d : Decimal) : Bool :=
  let narrow := m == twoTo 52 && Double.minExponent < e
  let low := if narrow then 4 * m - 1 else 4 * m - 2
  let below := compareScaled d.digits d.exponent low (e - 2)
  let above := compareScaled d.digits d.exponent (4 * m + 2) (e - 2)
  let closed := m % 2 == 0
  (below == .gt || (closed && below == .eq)) && (above == .lt || (closed && above == .eq))

/-- The number of decimal digits of a natural. -/
def width (n : Nat) : Nat := (Nat.toDigits 10 n).length

/-- The least `k` with `num / den < 10^k`, for a positive ratio. -/
def scaleOf (num den : Nat) : Int :=
  if den ≤ num then width (num / den)
  else
    let w := width (den / num)
    if den = num * tenTo (w - 1) then 2 - (w : Int) else 1 - (w : Int)

/-- The whole part of `num / den / 10^g`. -/
def floorOnGrid (num den : Nat) (g : Int) : Nat :=
  num * tenTo (-g).toNat / (den * tenTo g.toNat)

/-- Of the two neighbours `low` and `low + 1` on the grid `10^g`, the one nearer to `num / den`. -/
def nearer (tie : Tie) (num den : Nat) (g : Int) (low : Nat) : Nat :=
  match compare (2 * num * tenTo (-g).toNat) ((2 * low + 1) * den * tenTo g.toNat) with
  | .lt => low
  | .gt => low + 1
  | .eq =>
    match tie with
    | .up => low + 1
    | .toEven => if low % 2 = 0 then low else low + 1

/-- The decimal of the grid `10^g` that reads back as `m * 2^e`, if there is one. -/
def onGrid (tie : Tie) (m : Nat) (e : Int) (g : Int) : Option Decimal :=
  let (num, den) := Double.ratio m e
  let low := floorOnGrid num den g
  match readsBack m e ⟨low, g⟩, readsBack m e ⟨low + 1, g⟩ with
  | true, true => some ⟨nearer tie num den g low, g⟩
  | true, false => some ⟨low, g⟩
  | false, true => some ⟨low + 1, g⟩
  | false, false => none

/-- The exact value of `m * 2^e` as a decimal. -/
def exact (m : Nat) (e : Int) : Decimal :=
  if 0 ≤ e then ⟨m * twoTo e.toNat, 0⟩ else ⟨m * Nat.pow 5 (-e).toNat, e⟩

/-- Moves up to `n` trailing zeros of the digits into the exponent. -/
def trim : Nat → Decimal → Decimal
  | 0, d => d
  | n + 1, d => if d.digits % 10 = 0 then trim n ⟨d.digits / 10, d.exponent + 1⟩ else d

/-- The most digits that a double ever needs. -/
def maxWidth : Nat := 17

/-- The shortest decimal that reads back as `m * 2^e`, for `m` positive. -/
def shortest (tie : Tie) (m : Nat) (e : Int) : Decimal :=
  let (num, den) := Double.ratio m e
  let k := scaleOf num den
  let found := (List.range maxWidth).findSome? fun n : Nat => onGrid tie m e (k - (n + 1))
  let d := found.getD (exact m e)
  trim (width d.digits - 1) d

example : shortest .toEven 1 (-1074) = ⟨5, -324⟩ := by decide +kernel
example : shortest .toEven (twoTo 52) (-77) = ⟨29802322387695312, -24⟩ := by decide +kernel
example : shortest .up (twoTo 52) (-77) = ⟨29802322387695313, -24⟩ := by decide +kernel

end Decimal

end WorkflowCompiler
