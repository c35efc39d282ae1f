import WorkflowCompiler.Json.Number

/-!
# The grammar of JSON

Passing over a value without reading it. Only the grammar counts: arrays and objects nest to any
depth, numbers have any size, and an escape need not stand for a character.
-/
namespace WorkflowCompiler

namespace Document

/-- The four characters that may stand between the parts of a text. -/
def isSpace (c : Char) : Bool := c = ' ' || c = '\n' || c = '\t' || c = '\r'

/-- Drops the white space at the front. -/
def skipSpaces (cs : List Char) : List Char := cs.dropWhile isSpace

/-- The value of a digit of base sixteen, in either case. -/
def hexValue? (c : Char) : Option Nat :=
  if '0' ≤ c ∧ c ≤ '9' then some (c.toNat - '0'.toNat)
  else if 'a' ≤ c ∧ c ≤ 'f' then some (c.toNat - 'a'.toNat + 10)
  else if 'A' ≤ c ∧ c ≤ 'F' then some (c.toNat - 'A'.toNat + 10)
  else none

/-- The value of four digits of base sixteen. -/
def hex4? (a b c d : Char) : Option Nat := do
  return (((← hexValue? a) * 16 + (← hexValue? b)) * 16 + (← hexValue? c)) * 16 + (← hexValue? d)

/-- The character that a two-character escape stands for. -/
def shortEscape? : Char → Option Char
  | '"' => some '"'
  | '\\' => some '\\'
  | '/' => some '/'
  | 'b' => some (Char.ofNat 8)
  | 'f' => some (Char.ofNat 12)
  | 'n' => some '\n'
  | 'r' => some '\r'
  | 't' => some '\t'
  | _ => none

/-- Passes over a string after its opening quote. -/
def passString : List Char → Option (List Char)
  | [] => none
  | '"' :: cs => some cs
  | '\\' :: 'u' :: a :: b :: c :: d :: cs =>
      if (hex4? a b c d).isSome then passString cs else none
  | '\\' :: e :: cs => if (shortEscape? e).isSome then passString cs else none
  | c :: cs => if c.toNat < 0x20 || c = '\\' then none else passString cs

/-- Passes over a value that is neither an array nor an object. -/
def passScalar : List Char → Option (List Char)
  | 'n' :: 'u' :: 'l' :: 'l' :: rest => some rest
  | 't' :: 'r' :: 'u' :: 'e' :: rest => some rest
  | 'f' :: 'a' :: 'l' :: 's' :: 'e' :: rest => some rest
  | '"' :: rest => passString rest
  | cs => (JsonNumber.written? cs).map Prod.snd

/-- What an open bracket holds. -/
inductive Bracket
  | array
  | object
  deriving DecidableEq, Repr

/-- What comes at a place of a text: a value, a key with its value, or what follows a value. -/
inductive Expected
  | value
  | field
  | sequel
  deriving DecidableEq, Repr

/-- Passes over the text up to the end of the outermost of the brackets that are `opened`, the
innermost being the first. Every step passes over a character, so the number is never reached when
it is greater than the length of the text. -/
def pass : Nat → Expected → (opened : List Bracket) → List Char → Option (List Char)
  | 0, _, _, _ => none
  | _ + 1, .sequel, [], cs => some cs
  | n + 1, .sequel, .array :: opened, cs =>
    match skipSpaces cs with
    | ',' :: rest => pass n .value (.array :: opened) rest
    | ']' :: rest => pass n .sequel opened rest
    | _ => none
  | n + 1, .sequel, .object :: opened, cs =>
    match skipSpaces cs with
    | ',' :: rest => pass n .field (.object :: opened) rest
    | '}' :: rest => pass n .sequel opened rest
    | _ => none
  | n + 1, .field, opened, cs =>
    match skipSpaces cs with
    | '"' :: rest =>
      match (passString rest).map skipSpaces with
      | some (':' :: rest) => pass n .value opened rest
      | _ => none
    | _ => none
  | n + 1, .value, opened, cs =>
    match skipSpaces cs with
    | '[' :: rest =>
      match skipSpaces rest with
      | ']' :: rest => pass n .sequel opened rest
      | rest => pass n .value (.array :: opened) rest
    | '{' :: rest =>
      match skipSpaces rest with
      | '}' :: rest => pass n .sequel opened rest
      | rest => pass n .field (.object :: opened) rest
    | rest =>
      match passScalar rest with
      | some rest => pass n .sequel opened rest
      | none => none

/-- Passes over a value. -/
def passValue (cs : List Char) : Option (List Char) := pass (cs.length + 1) .value [] cs

/-- Passes over the fields of an object, the next one to come, and the closing brace. -/
def passFields (cs : List Char) : Option (List Char) := pass (cs.length + 1) .field [.object] cs

example : passValue "[1e999, \x7b\"\\ud800\": [[ ]]\x7d], 2".toList = some ", 2".toList := by
  decide +kernel
example : passValue "[1,]".toList = none := by decide +kernel
example : passFields "\"a\": 1\x7d, 2".toList = some ", 2".toList := by decide +kernel

end Document

end WorkflowCompiler
