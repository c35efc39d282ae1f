import WorkflowCompiler.Json.Basic
import WorkflowCompiler.Number.Integer

/-!
# Reading JSON numbers

A number without fraction and exponent is an integer as long as it fits 64 bits. For all others
the leading digits that fit 64 bits are rounded to a double, which is then scaled by a power of
ten in double arithmetic; the last place may therefore differ from the nearest double.
-/
namespace WorkflowCompiler

namespace JsonNumber

/-- The digits and marks of a number, as written. -/
structure Written where
  negative : Bool
  whole : List Char
  fraction : List Char
  exponent : Option Int

/-- A significand of at most 64 bits and a power of ten. -/
structure Cut where
  significand : Nat
  exponent : Int

namespace Cut

/-- Appends a digit of the whole part. Once one does not fit, it and all later ones only raise the
exponent. -/
def addWhole (cut : Cut) (full : Bool) : List Char → Cut
  | [] => cut
  | c :: cs =>
      let next := 10 * cut.significand + (c.toNat - '0'.toNat)
      if full || Integer.maxUnsigned < next then
        addWhole { cut with exponent := cut.exponent + 1 } true cs
      else addWhole { cut with significand := next } false cs

/-- Appends the digits of the fraction up to the first that does not fit. -/
def addFraction (cut : Cut) : List Char → Cut
  | [] => cut
  | c :: cs =>
      let next := 10 * cut.significand + (c.toNat - '0'.toNat)
      if Integer.maxUnsigned < next then cut
      else addFraction ⟨next, cut.exponent - 1⟩ cs

end Cut

/-- The double nearest to a power of ten. -/
def powerOfTen (n : Nat) : Double := .ofNat (tenTo n)

/-- The greatest power of ten by which one multiplication or division scales. -/
def maxPower : Int := 308

/-- Scales by a power of ten; `none` when the result is too large. -/
def scale (f : Double) (exponent : Int) : Option Double :=
  if f.isZero then some f
  else if maxPower < exponent then none
  else if 0 ≤ exponent then
    match f.mul (powerOfTen exponent.toNat) with
    | .infinite _ => none
    | g => some g
  else if -maxPower ≤ exponent then some (f.div (powerOfTen (-exponent).toNat))
  else if -(2 * maxPower) ≤ exponent then
    some ((f.div (powerOfTen maxPower.toNat)).div (powerOfTen (-exponent - maxPower).toNat))
  else some (.zero false)

/-- The double that a written number stands for. -/
def Written.double? (w : Written) : Option Double :=
  let cut := ((Cut.mk 0 0).addWhole false w.whole).addFraction w.fraction
  (scale (.ofNat cut.significand) (cut.exponent + w.exponent.getD 0)).map fun f =>
    if w.negative then f.neg else f

/-- The number that is written, `none` when it is too large for a double. -/
def Written.number? (w : Written) : Option JsonNumber :=
  if w.fraction.isEmpty && w.exponent.isNone then
    match Integer.digits? w.whole with
    | none => none
    | some n =>
      if w.negative then
        if n ≠ 0 ∧ n ≤ twoTo 63 then some (.integer (-(n : Int))) else w.double?.map .double
      else if n ≤ Integer.maxUnsigned then some (.integer n)
      else w.double?.map .double
  else w.double?.map .double

/-- The digits at the front. -/
def digitsOf (cs : List Char) : List Char × List Char :=
  (cs.takeWhile Char.isDigit, cs.dropWhile Char.isDigit)

/-- The digits after an exponent mark, with their sign. -/
def exponent? (cs : List Char) : Option (Int × List Char) :=
  let (negative, cs) :=
    match cs with
    | '-' :: cs => (true, cs)
    | '+' :: cs => (false, cs)
    | cs => (false, cs)
  let (digits, rest) := digitsOf cs
  (Integer.digits? digits).map fun n => (if negative then -(n : Int) else n, rest)

/-- The exponent of a number, which may be absent. -/
def exponentPart? (cs : List Char) : Option (Option Int × List Char) :=
  match cs with
  | 'e' :: rest | 'E' :: rest => (exponent? rest).map fun (n, rest) => (some n, rest)
  | cs => some (none, cs)

/-- The fraction of a number, which may be absent but not empty. -/
def fraction? (cs : List Char) : Option (List Char × List Char) :=
  match cs with
  | '.' :: rest =>
    match digitsOf rest with
    | ([], _) => none
    | found => some found
  | cs => some ([], cs)

/-- The whole part of a number: `0`, or digits that do not start with `0`. -/
def whole? (cs : List Char) : Option (List Char × List Char) :=
  match digitsOf cs with
  | ([], _) | ('0' :: _ :: _, _) => none
  | found => some found

/-- Reads the digits and marks of a number after its sign. -/
def unsigned? (negative : Bool) (cs : List Char) : Option (Written × List Char) := do
  let (whole, cs) ← whole? cs
  let (fraction, cs) ← fraction? cs
  let (exponent, cs) ← exponentPart? cs
  return (⟨negative, whole, fraction, exponent⟩, cs)

/-- Reads the digits and marks of a number from the front of `cs`. -/
def written? : List Char → Option (Written × List Char)
  | '-' :: cs => unsigned? true cs
  | cs => unsigned? false cs

example : Written.number? ⟨false, "18446744073709551615".toList, [], none⟩ =
    some (.integer 18446744073709551615) := by decide +kernel
example : Written.number? ⟨true, ['0'], [], none⟩ = some (.double (.zero true)) := by
  decide +kernel
example : Written.number? ⟨false, ['1'], [], some 309⟩ = none := by decide +kernel
example : (written? "01".toList).isNone := by decide +kernel

end JsonNumber

end WorkflowCompiler
