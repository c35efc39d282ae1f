import WorkflowCompiler.Json.Basic
import WorkflowCompiler.Number.Style

/-!
# Printing JSON

The compact text has no blanks at all; the indented text has one item a line, two blanks a level.
Quotes, backslashes and control characters are escaped, all others stand for themselves.
-/
namespace WorkflowCompiler

/-- The text of a number. -/
def JsonNumber.render : JsonNumber → String
  | .integer n => toString n
  | .double d => NumberStyle.json.render d

namespace Json

/-- A digit of base sixteen, small letters. -/
def hexDigit (n : Nat) : Char := Nat.digitChar n

/-- A character inside a JSON string. -/
def escapeChar (c : Char) : List Char :=
  if c = '"' then ['\\', '"']
  else if c = '\\' then ['\\', '\\']
  else if c.toNat = 8 then ['\\', 'b']
  else if c.toNat = 9 then ['\\', 't']
  else if c.toNat = 10 then ['\\', 'n']
  else if c.toNat = 12 then ['\\', 'f']
  else if c.toNat = 13 then ['\\', 'r']
  else if c.toNat < 0x20 then
    ['\\', 'u', '0', '0', hexDigit (c.toNat / 16), hexDigit (c.toNat % 16)]
  else [c]

/-- A JSON string. -/
def quote (text : String) : String :=
  String.ofList ('"' :: text.toList.flatMap escapeChar ++ ['"'])

mutual

/-- The text without blanks. -/
def compact : Json → String
  | .null => "null"
  | .bool true => "true"
  | .bool false => "false"
  | .number n => n.render
  | .string text => quote text
  | .array items => "[" ++ compactItems items ++ "]"
  | .object fields => "\x7b" ++ compactFields fields ++ "\x7d"

/-- Items with commas between them. -/
def compactItems : List Json → String
  | [] => ""
  | [item] => compact item
  | item :: rest => compact item ++ "," ++ compactItems rest

/-- Fields with commas between them. -/
def compactFields : List (String × Json) → String
  | [] => ""
  | [(key, value)] => quote key ++ ":" ++ compact value
  | (key, value) :: rest => quote key ++ ":" ++ compact value ++ "," ++ compactFields rest

end

/-- A new line and the blanks of a level. -/
def newLine (level : Nat) : String := String.ofList ('\n' :: List.replicate (2 * level) ' ')

mutual

/-- The indented text, for a value at the given level. -/
def indented (level : Nat) : Json → String
  | .null => "null"
  | .bool true => "true"
  | .bool false => "false"
  | .number n => n.render
  | .string text => quote text
  | .array [] => "[]"
  | .array items => "[" ++ indentedItems (level + 1) items ++ newLine level ++ "]"
  | .object [] => "\x7b\x7d"
  | .object fields => "\x7b" ++ indentedFields (level + 1) fields ++ newLine level ++ "\x7d"

/-- Items, each on a line of its own. -/
def indentedItems (level : Nat) : List Json → String
  | [] => ""
  | [item] => newLine level ++ indented level item
  | item :: rest => newLine level ++ indented level item ++ "," ++ indentedItems level rest

/-- Fields, each on a line of its own. -/
def indentedFields (level : Nat) : List (String × Json) → String
  | [] => ""
  | [(key, value)] => newLine level ++ quote key ++ ": " ++ indented level value
  | (key, value) :: rest =>
      newLine level ++ quote key ++ ": " ++ indented level value ++ "," ++
        indentedFields level rest

end

/-- The indented text of a whole value. -/
def pretty (value : Json) : String := indented 0 value

example : compact (.array [.null, .object [("a", .string "\"\n")]]) =
    "[null,\x7b\"a\":\"\\\"\\n\"\x7d]" := by decide +kernel

end Json

end WorkflowCompiler
