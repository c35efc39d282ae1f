import WorkflowCompiler.Condition.Clause
import WorkflowCompiler.Proofs.Number.Rounding
import WorkflowCompiler.Proofs.Number.Styles

/-!
# Numbers and truth values in conditions

The expression language of the engine has numbers and truth values of its own, and takes every other
word for a name to look up. What is read as a number or a truth value is written as one, except for
a double that is not finite: that one is written as a name.
-/
namespace WorkflowCompiler

namespace Literal

/-- Which texts are numbers or truth values of the expression language. -/
inductive Spelled : List Char → Prop
  | number {digits : List Char} (negative : Bool) (written : Decimal.Written digits) :
      Spelled ((if negative then ['-'] else []) ++ digits)
  | true : Spelled "True".toList
  | false : Spelled "False".toList

/-- The words that the expression language keeps for itself. -/
def reserved : List String :=
  ["False", "None", "True", "and", "as", "assert", "async", "await", "break", "class", "continue",
    "def", "del", "elif", "else", "except", "finally", "for", "from", "global", "if", "import",
    "in", "is", "lambda", "nonlocal", "not", "or", "pass", "raise", "return", "try", "while",
    "with", "yield"]

/-- Whether a character can begin a name: a letter, an underscore or anything beyond ASCII. -/
def Letter (c : Char) : Prop := c.isAlpha = true ∨ c = '_' ∨ 127 < c.toNat

instance (c : Char) : Decidable (Letter c) := inferInstanceAs (Decidable (_ ∨ _))

/-- Whether a text is a name of the expression language. -/
structure Identifier (text : List Char) : Prop where
  first : ∃ c rest, text = c :: rest ∧ Letter c
  each : ∀ c ∈ text, Letter c ∨ c.isDigit = true
  free : String.ofList text ∉ reserved

/-- Which texts are looked up: names, behind an optional minus. -/
inductive LooksUp : List Char → Prop
  | intro {word : List Char} (negative : Bool) (name : Identifier word) :
      LooksUp ((if negative then ['-'] else []) ++ word)

theorem not_letter_of_isDigit {c : Char} (digit : c.isDigit = true) : ¬Letter c := by
  obtain ⟨low, high⟩ := Integer.digit_bounds digit
  rintro (alpha | rfl | beyond)
  · rcases (Bool.or_eq_true _ _).mp alpha with upper | lower
    · have : 65 ≤ c.toNat := (of_decide_eq_true upper).1
      omega
    · have : 97 ≤ c.toNat := of_decide_eq_true ((Bool.and_eq_true _ _).mp lower).1
      omega
  · exact absurd high (by decide)
  · omega

/-- Nothing that is looked up is a word that the language keeps. -/
theorem LooksUp.free {text : List Char} (looksUp : LooksUp text) :
    String.ofList text ∉ reserved := by
  obtain ⟨negative, name⟩ := looksUp
  cases negative with
  | false => exact name.free
  | true =>
    have words : ∀ word ∈ reserved, word.toList.head? ≠ some '-' := by decide
    intro kept
    exact words _ kept (by simp)

/-- No number and no truth value is looked up. -/
theorem Spelled.not_looksUp {text : List Char} (spelled : Spelled text) : ¬LooksUp text := by
  intro looksUp
  cases spelled with
  | true => exact looksUp.free (by decide)
  | false => exact looksUp.free (by decide)
  | number negative written =>
    obtain ⟨c, rest, rfl, digit⟩ := written.exists_head
    generalize same : (if negative then ['-'] else []) ++ c :: rest = text at looksUp
    obtain ⟨negative', ⟨⟨c', rest', rfl, letter⟩, -, -⟩⟩ := looksUp
    -- The two texts begin alike, so that a digit, or a minus, is a letter.
    have other := not_letter_of_isDigit digit
    cases negative <;> cases negative' <;> cases same
    · exact other letter
    · cases digit
    · exact absurd letter (by decide)
    · exact other letter

/-! ## What is written -/

theorem spelled_int (n : Int) : Spelled (render (.int n)).toList := by
  cases n with
  | ofNat n =>
    rw [render, Int.ofNat_eq_natCast, Integer.toList_ofNat]
    exact .number false (Decimal.written_toDigits n)
  | negSucc n =>
    rw [render, Integer.toList_negSucc]
    exact .number true (Decimal.written_toDigits (n + 1))

theorem spelled_bool (value : Bool) : Spelled (render (.bool value)).toList := by
  cases value with
  | true => exact .true
  | false => exact .false

theorem spelled_float {value : Double} (finite : value.Finite) :
    Spelled (render (.float value)).toList := by
  cases value with
  | finite negative m e =>
    obtain ⟨digits, written, text⟩ := NumberStyle.literal.render_finite negative m e
    rw [render, text]
    exact .number negative written
  | infinite => cases finite
  | nan => cases finite

theorem looksUp_float {value : Double} (beyond : ¬value.Finite) :
    LooksUp (render (.float value)).toList := by
  have nan : Identifier "NaN".toList := ⟨⟨_, _, rfl, by decide⟩, by simp [Letter], by decide⟩
  have infinity : Identifier "inf".toList := ⟨⟨_, _, rfl, by decide⟩, by simp [Letter], by decide⟩
  cases value with
  | finite => exact absurd trivial beyond
  | infinite negative =>
    cases negative with
    | false => exact .intro false infinity
    | true => exact .intro true infinity
  | nan => exact .intro false nan

/-! ## What is read -/

/-- Whether a value is a text beyond every finite double, blanks around it aside. -/
def Boundless (raw : Json) : Prop :=
  ∃ core, Text.Padded (sourceText raw).toList core ∧ Double.Boundless core

/-- Which literal a text is read as when the type of the input is one of numbers or truth values. -/
inductive Reads (text : String) : String → Literal → Prop
  | int {n : Int} (found : Integer.readSigned (Text.trim text) = some n) : Reads text "int" (.int n)
  | float {value : Double} (found : Double.read (Text.trim text) = some value) :
      Reads text "float" (.float value)
  | bool {value : Bool} (found : readBool text = some value) : Reads text "bool" (.bool value)

theorem reads_of_coerce {input typeName : String} {raw : Json} {literal : Literal}
    (numeric : typeName ∈ ["int", "float", "bool"])
    (accepted : coerce input typeName raw = .ok literal) :
    Reads (sourceText raw) typeName literal := by
  simp only [List.mem_cons, List.not_mem_nil, or_false] at numeric
  rcases numeric with rfl | rfl | rfl
  · cases found : Integer.readSigned (Text.trim (sourceText raw)) <;>
      simp only [coerce, found, reduceIte, Option.map_none, Option.map_some] at accepted <;>
      cases accepted
    exact .int found
  · cases found : Double.read (Text.trim (sourceText raw)) <;>
      simp only [coerce, found, String.reduceEq, reduceIte, Option.map_none, Option.map_some]
        at accepted <;>
      cases accepted
    exact .float found
  · cases found : readBool (sourceText raw) <;>
      simp only [coerce, found, String.reduceEq, reduceIte, Option.map_none, Option.map_some]
        at accepted <;>
      cases accepted
    exact .bool found

theorem boundless_iff {raw : Json} {value : Double}
    (found : Double.read (Text.trim (sourceText raw)) = some value) :
    Boundless raw ↔ ¬value.Finite := by
  have solid : ∀ core, Double.Boundless core →
      core ≠ [] ∧ ∀ c ∈ core, Text.isBlank c = false := fun core beyond => by
    obtain ⟨_, numeral, -⟩ := Double.boundless_iff.mp beyond
    exact numeral.solid
  rw [Boundless, ← Text.trimChars_iff solid, ← String.toList_ofList (l := Text.trimChars _),
    Double.boundless_iff]
  constructor
  · rintro ⟨value', denotes, beyond⟩
    obtain rfl := Option.some.inj (found.symm.trans (Double.read_eq_some_iff.mpr denotes))
    exact beyond
  · intro beyond
    exact ⟨value, Double.read_eq_some_iff.mp found, beyond⟩

theorem spelled_or_looksUp {typeName : String} {raw : Json} {literal : Literal}
    (reads : Reads (sourceText raw) typeName literal) :
    (Spelled literal.render.toList ∧ ¬(typeName = "float" ∧ Boundless raw)) ∨
      LooksUp literal.render.toList ∧ typeName = "float" ∧ Boundless raw := by
  cases reads with
  | int => exact .inl ⟨spelled_int _, fun float => absurd float.1 (by decide)⟩
  | bool => exact .inl ⟨spelled_bool _, fun float => absurd float.1 (by decide)⟩
  | @float value found =>
    by_cases finite : value.Finite
    · exact .inl ⟨spelled_float finite, fun float => (boundless_iff found).mp float.2 finite⟩
    · exact .inr ⟨looksUp_float finite, rfl, (boundless_iff found).mpr finite⟩

/-- What is read as a number or a truth value is written as one and not looked up, except where a
double is beyond all bounds: that one is written as a name. -/
theorem spelled_unless_boundless {input typeName : String} {raw : Json} {literal : Literal}
    (numeric : typeName ∈ ["int", "float", "bool"])
    (accepted : coerce input typeName raw = .ok literal) :
    (Spelled literal.render.toList ↔ ¬(typeName = "float" ∧ Boundless raw)) ∧
      (LooksUp literal.render.toList ↔ typeName = "float" ∧ Boundless raw) := by
  rcases spelled_or_looksUp (reads_of_coerce numeric accepted) with
    ⟨spelled, within⟩ | ⟨looksUp, beyond⟩
  · exact ⟨iff_of_true spelled within, iff_of_false spelled.not_looksUp within⟩
  · have unspelled := fun spelled : Spelled literal.render.toList => spelled.not_looksUp looksUp
    exact ⟨iff_of_false unspelled (not_not_intro beyond), iff_of_true looksUp beyond⟩

/-- The last decimal of its length below the overflow, with blanks around it. -/
def last : Json := .string "\u00a0-1.7976931348623158E+308 "

theorem spelled_unless_boundless_last :
    "float" ∈ ["int", "float", "bool"] ∧
      coerce "score" "float" last = .ok (.float (.finite true (2 ^ 53 - 1) 971)) ∧
      (Literal.float (.finite true (2 ^ 53 - 1) 971)).render = "-1.7976931348623157e308" ∧
      Spelled "-1.7976931348623157e308".toList ∧ ¬LooksUp "-1.7976931348623157e308".toList := by
  have accepted : coerce "score" "float" last = .ok (.float (.finite true (2 ^ 53 - 1) 971)) := by
    decide +kernel
  have text : (Literal.float (.finite true (2 ^ 53 - 1) 971)).render =
      "-1.7976931348623157e308" := by decide +kernel
  have within : ¬Boundless last := by
    have found : Double.read (Text.trim (sourceText last)) =
        some (.finite true (2 ^ 53 - 1) 971) := by decide +kernel
    rw [boundless_iff found]
    exact not_not_intro trivial
  obtain ⟨spelled, looksUp⟩ := spelled_unless_boundless (by decide) accepted
  rw [text] at spelled looksUp
  exact ⟨by decide, accepted, text, spelled.mpr fun float => within float.2,
    fun name => within (looksUp.mp name).2⟩

/-- A comparison with a decimal of four hundred zeros. -/
def huge : Clause := { variableName := "score", operator := "<", value := .string "1e400" }

theorem huge_looked_up :
    coerce "score" "float" huge.value = .ok (.float (.infinite false)) ∧
      (Literal.float (.infinite false)).render = "inf" ∧
      LooksUp "inf".toList ∧ ¬Spelled "inf".toList ∧
      (Condition.ofClauses "loop" [huge]
        [{ variableName := "score", variableType := some "float" }]).map Condition.toLambda =
          .ok "lambda *x: x[0] < inf" := by
  have looksUp : LooksUp "inf".toList := @looksUp_float (.infinite false) not_false
  exact ⟨by decide +kernel, by decide, looksUp, fun spelled => spelled.not_looksUp looksUp,
    by decide +kernel⟩

end Literal

end WorkflowCompiler
