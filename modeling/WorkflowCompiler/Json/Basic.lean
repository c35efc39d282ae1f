import WorkflowCompiler.Entries
import WorkflowCompiler.Number.Double

/-!
# JSON values

Values whose objects keep the order of their keys. Whole numbers between `-2^63` and `2^64 - 1`
are integers, every other number is a double.
-/
namespace WorkflowCompiler

/-- A JSON number. -/
inductive JsonNumber
  | integer (value : Int)
  | double (value : Double)
  deriving DecidableEq, Repr

/-- A JSON value. -/
inductive Json
  | null
  | bool (value : Bool)
  | number (value : JsonNumber)
  | string (value : String)
  | array (items : List Json)
  | object (fields : List (String × Json))

/-- The fields of a JSON object. -/
abbrev JsonObject := Entries Json

namespace Json

mutual

/-- Decides whether two values are the same, the order of keys included. -/
def decEq : (a b : Json) → Decidable (a = b)
  | .null, .null => isTrue rfl
  | .bool a, .bool b => decidable_of_iff (a = b) (by simp)
  | .number a, .number b => decidable_of_iff (a = b) (by simp)
  | .string a, .string b => decidable_of_iff (a = b) (by simp)
  | .array a, .array b =>
      have := decEqItems a b
      decidable_of_iff (a = b) (by simp)
  | .object a, .object b =>
      have := decEqFields a b
      decidable_of_iff (a = b) (by simp)
  | .null, .bool _ | .null, .number _ | .null, .string _ | .null, .array _ | .null, .object _
  | .bool _, .null | .bool _, .number _ | .bool _, .string _ | .bool _, .array _
  | .bool _, .object _
  | .number _, .null | .number _, .bool _ | .number _, .string _ | .number _, .array _
  | .number _, .object _
  | .string _, .null | .string _, .bool _ | .string _, .number _ | .string _, .array _
  | .string _, .object _
  | .array _, .null | .array _, .bool _ | .array _, .number _ | .array _, .string _
  | .array _, .object _
  | .object _, .null | .object _, .bool _ | .object _, .number _ | .object _, .string _
  | .object _, .array _ => isFalse (by simp)

/-- Decides whether two lists of values are the same. -/
def decEqItems : (a b : List Json) → Decidable (a = b)
  | [], [] => isTrue rfl
  | [], _ :: _ | _ :: _, [] => isFalse (by simp)
  | x :: xs, y :: ys =>
      have := decEq x y
      have := decEqItems xs ys
      decidable_of_iff (x = y ∧ xs = ys) (by simp)

/-- Decides whether two lists of fields are the same. -/
def decEqFields : (a b : List (String × Json)) → Decidable (a = b)
  | [], [] => isTrue rfl
  | [], _ :: _ | _ :: _, [] => isFalse (by simp)
  | (k, x) :: xs, (l, y) :: ys =>
      have := decEq x y
      have := decEqFields xs ys
      decidable_of_iff ((k = l ∧ x = y) ∧ xs = ys) (by simp)

end

instance : DecidableEq Json := decEq

instance : Inhabited Json := ⟨.null⟩

/-- A natural number. -/
def ofNat (n : Nat) : Json := .number (.integer n)

/-- A list of texts. -/
def ofStrings (texts : List String) : Json := .array (texts.map .string)

/-- A text that may be absent. -/
def ofString? : Option String → Json
  | some text => .string text
  | none => .null

/-- Whether the value is `null`. -/
def isNull : Json → Bool
  | .null => true
  | _ => false

/-- The value when it is a text. -/
def string? : Json → Option String
  | .string text => some text
  | _ => none

/-- The value when it is a truth value. -/
def bool? : Json → Option Bool
  | .bool b => some b
  | _ => none

/-- The value when it is a whole number that is not negative. -/
def nat? : Json → Option Nat
  | .number (.integer n) => if 0 ≤ n then some n.toNat else none
  | _ => none

/-- The value when it is an array. -/
def array? : Json → Option (List Json)
  | .array items => some items
  | _ => none

/-- The value when it is an object. -/
def object? : Json → Option JsonObject
  | .object fields => some fields
  | _ => none

/-- The value under a key, when this is an object that has it. -/
def field? : Json → String → Option Json
  | .object fields, key => Entries.get? fields key
  | _, _ => none

end Json

end WorkflowCompiler
