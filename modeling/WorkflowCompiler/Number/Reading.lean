import WorkflowCompiler.Number.Double
import WorkflowCompiler.Number.Integer

/-!
# Reading doubles

A decimal with an optional sign, fraction and exponent, rounded once to the nearest double. The
names of infinity and of "not a number" are accepted in any letter case.
-/
namespace WorkflowCompiler

namespace Double

/-- The ASCII lower-case form of a character. -/
def asciiLower (c : Char) : Char :=
  if 'A' ≤ c ∧ c ≤ 'Z' then Char.ofNat (c.toNat + 32) else c

/-- An optional exponent, which must end the text. -/
def exponent? : List Char → Option Int
  | [] => some 0
  | c :: cs => if c = 'e' ∨ c = 'E' then Integer.signed? cs else none

/-- An unsigned decimal: digits with at most one point among or around them, and an exponent. -/
def decimal? (negative : Bool) (cs : List Char) : Option Double :=
  let whole := cs.takeWhile Char.isDigit
  let rest := cs.dropWhile Char.isDigit
  let (fraction, rest) :=
    match rest with
    | '.' :: more => (more.takeWhile Char.isDigit, more.dropWhile Char.isDigit)
    | _ => ([], rest)
  (Integer.digits? (whole ++ fraction)).bind fun digits =>
    (exponent? rest).map fun x => ofDecimal negative digits (x - fraction.length)

/-- A decimal or one of the names. -/
def unsigned? (negative : Bool) (cs : List Char) : Option Double :=
  let name := String.ofList (cs.map asciiLower)
  if name = "nan" then some .nan
  else if name = "inf" ∨ name = "infinity" then some (.infinite negative)
  else decimal? negative cs

/-- Reads a double; the text must hold nothing else, not even blanks. -/
def read (text : String) : Option Double :=
  match text.toList with
  | '-' :: cs => unsigned? true cs
  | '+' :: cs => unsigned? false cs
  | cs => unsigned? false cs

example : read ".5" = some (.ofDecimal false 5 (-1)) := by decide +kernel
example : read "1e400" = some (.infinite false) := by decide +kernel
example : read "-InFinity" = some (.infinite true) := by decide +kernel
example : read "1e" = none := by decide +kernel
example : read "." = none := by decide +kernel

end Double

end WorkflowCompiler
