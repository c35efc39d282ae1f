import WorkflowCompiler.Number.Shortest

/-!
# Written forms of doubles

A style fixes which magnitudes are written positionally and how an exponent looks. Three styles
are in use: that of JSON texts, that of literals in loop conditions, and that of switch keys.
-/
namespace WorkflowCompiler

/-- How a double is written. A number whose leading digit stands at `10^x` is positional when
`plainFrom ≤ x < plainBelow`, always with a point; otherwise it has an exponent. -/
structure NumberStyle where
  plainFrom : Int
  plainBelow : Int
  /-- Whether a positive exponent carries a plus sign. -/
  plusSign : Bool
  /-- The least number of exponent digits. -/
  exponentWidth : Nat
  tie : Tie
  nanText : String
  infinityText : String

namespace NumberStyle

/-- JSON texts: positional from `10^-5` up to below `10^16`, then `1e+20` and `1.5e-7`. -/
def json : NumberStyle where
  plainFrom := -5
  plainBelow := 16
  plusSign := true
  exponentWidth := 1
  tie := .toEven
  nanText := "null"
  infinityText := "null"

/-- Literals of loop conditions: positional from `10^-4` up to below `10^16`, then `1e20`. -/
def literal : NumberStyle where
  plainFrom := -4
  plainBelow := 16
  plusSign := false
  exponentWidth := 1
  tie := .up
  nanText := "NaN"
  infinityText := "inf"

/-- Keys of switch cases: as literals, but exponents are signed and have two digits. -/
def caseKey : NumberStyle where
  plainFrom := -4
  plainBelow := 16
  plusSign := true
  exponentWidth := 2
  tie := .up
  nanText := "nan"
  infinityText := "inf"

/-- `n` zeros. -/
def zeros (n : Nat) : List Char := List.replicate n '0'

/-- The digits with a point after the first `1 + x` of them. -/
def positional (digits : List Char) (x : Int) : List Char :=
  if x < 0 then '0' :: '.' :: zeros (-x - 1).toNat ++ digits
  else
    let whole := x.toNat + 1
    let fraction := digits.drop whole
    digits.take whole ++ zeros (whole - digits.length) ++ '.' ::
      (if fraction.isEmpty then ['0'] else fraction)

/-- The exponent, with its sign and filled up to the least width. -/
def exponentText (style : NumberStyle) (x : Int) : List Char :=
  let digits := Nat.toDigits 10 x.natAbs
  let sign := if x < 0 then ['-'] else if style.plusSign then ['+'] else []
  'e' :: sign ++ zeros (style.exponentWidth - digits.length) ++ digits

/-- The digits with a point after the first one, and the exponent. -/
def scientific (style : NumberStyle) (digits : List Char) (x : Int) : List Char :=
  let fraction := digits.drop 1
  digits.take 1 ++ (if fraction.isEmpty then [] else '.' :: fraction) ++ style.exponentText x

/-- A positive magnitude `m * 2^e`. -/
def magnitude (style : NumberStyle) (m : Nat) (e : Int) : List Char :=
  let d := Decimal.shortest style.tie m e
  let digits := Nat.toDigits 10 d.digits
  let x := d.exponent + digits.length - 1
  if style.plainFrom ≤ x ∧ x < style.plainBelow then positional digits x
  else style.scientific digits x

/-- Writes a double. -/
def render (style : NumberStyle) : Double → String
  | .nan => style.nanText
  | .infinite s => (if s then "-" else "") ++ style.infinityText
  | .finite s m e =>
      String.ofList ((if s then ['-'] else []) ++
        (if m = 0 then ['0', '.', '0'] else style.magnitude m e))

example : json.render (.ofDecimal false 1 20) = "1e+20" := by decide +kernel
example : json.render (.ofDecimal false 1 (-5)) = "0.00001" := by decide +kernel
example : json.render (.ofDecimal true 0 0) = "-0.0" := by decide +kernel
example : literal.render (.ofDecimal false 1 16) = "1e16" := by decide +kernel
example : literal.render (.ofDecimal false 123456 (-3)) = "123.456" := by decide +kernel
example : caseKey.render (.ofDecimal false 25 (-8)) = "2.5e-07" := by decide +kernel

end NumberStyle

end WorkflowCompiler
