import WorkflowCompiler.Number.Power

/-!
# Integers in decimal

Reading whole numbers of a fixed range: an optional sign and ASCII digits, nothing else around
them. Writing is `toString`.
-/
namespace WorkflowCompiler

namespace Integer

/-- The least and the greatest signed 64-bit integer. -/
def minSigned : Int := -twoTo 63
def maxSigned : Int := twoTo 63 - 1

/-- The greatest unsigned 64-bit integer. -/
def maxUnsigned : Nat := twoTo 64 - 1

/-- The value of an ASCII digit. -/
def digit? (c : Char) : Option Nat :=
  if '0' ≤ c ∧ c ≤ '9' then some (c.toNat - '0'.toNat) else none

/-- Appends the digits of `cs` to `acc`; `none` as soon as a character is no digit. -/
def digitsOnto : Nat → List Char → Option Nat
  | acc, [] => some acc
  | acc, c :: cs => (digit? c).bind fun d => digitsOnto (10 * acc + d) cs

/-- The value of a non-empty run of digits. -/
def digits? : List Char → Option Nat
  | [] => none
  | cs => digitsOnto 0 cs

/-- A whole number with an optional sign, of any size. -/
def signed? : List Char → Option Int
  | '-' :: cs => (digits? cs).map fun n => -(n : Int)
  | '+' :: cs => (digits? cs).map fun n => (n : Int)
  | cs => (digits? cs).map fun n => (n : Int)

/-- Reads a signed 64-bit integer. -/
def readSigned (text : String) : Option Int :=
  (signed? text.toList).filter fun n => minSigned ≤ n ∧ n ≤ maxSigned

/-- Reads an unsigned 64-bit integer; a plus sign is allowed, a minus sign is not. -/
def readUnsigned (text : String) : Option Nat :=
  let digits :=
    match text.toList with
    | '+' :: cs => digits? cs
    | cs => digits? cs
  digits.filter fun n => n ≤ maxUnsigned

example : readSigned "-0007" = some (-7) := by decide +kernel
example : readSigned "9223372036854775808" = none := by decide +kernel
example : readUnsigned "-0" = none := by decide +kernel

end Integer

end WorkflowCompiler
