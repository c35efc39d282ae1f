import WorkflowCompiler.Json.Document
import WorkflowCompiler.Json.Grammar

/-!
# Reading JSON

A reader of documents. It never gives up what it has read: a part that stands for no value is passed
over, and at the first character that does not fit the grammar reading ends. Arrays and objects that
nest deeper than `Document.maxDepth` stand for no value.
-/
namespace WorkflowCompiler

namespace Document

/-- The deepest nesting of arrays and objects. -/
def maxDepth : Nat := 127

/-- Whether a 16-bit unit opens a surrogate pair. -/
def isHighSurrogate (n : Nat) : Bool := 0xD800 ≤ n && n ≤ 0xDBFF

/-- Whether a 16-bit unit closes a surrogate pair. -/
def isLowSurrogate (n : Nat) : Bool := 0xDC00 ≤ n && n ≤ 0xDFFF

/-- The character of a surrogate pair. -/
def ofSurrogates (high low : Nat) : Char :=
  Char.ofNat (0x10000 + (high - 0xD800) * 0x400 + (low - 0xDC00))

/-- Reads a string after its opening quote; `done` holds the characters so far in reverse. -/
def stringBody (done : List Char) : List Char → Option (String × List Char)
  | [] => none
  | '"' :: cs => some (String.ofList done.reverse, cs)
  | '\\' :: 'u' :: a :: b :: c :: d :: cs =>
      match hex4? a b c d with
      | none => none
      | some n =>
        if isLowSurrogate n then none
        else if isHighSurrogate n then
          match cs with
          | '\\' :: 'u' :: a' :: b' :: c' :: d' :: cs =>
            match hex4? a' b' c' d' with
            | none => none
            | some m =>
              if isLowSurrogate m then stringBody (ofSurrogates n m :: done) cs else none
          | _ => none
        else stringBody (Char.ofNat n :: done) cs
  | '\\' :: e :: cs =>
      match shortEscape? e with
      | none => none
      | some c => stringBody (c :: done) cs
  | c :: cs => if c.toNat < 0x20 || c = '\\' then none else stringBody (c :: done) cs

/-- A document and what follows it; nothing when reading has ended in it. -/
abbrev Reading := Document × Option (List Char)

/-- A part that stands for no value, when the text is `passed` over to its end. -/
def flawedReading (passed : Option (List Char)) : Reading :=
  (.flawed (Flaw.ofPassed passed), passed)

/-- Reads the items of an array, the next one to come, up to the closing bracket. The number
bounds the items and is never reached when it is the length of the text. -/
def readItems (value : List Char → Reading) : Nat → List Char → List Document × Option (List Char)
  | 0, _ => ([.flawed .ungrammatical], none)
  | n + 1, cs =>
    match value cs with
    | (d, none) => ([d], none)
    | (d, some rest) =>
      match skipSpaces rest with
      | ']' :: rest => ([d], some rest)
      | ',' :: rest =>
        let (ds, rest) := readItems value n rest
        (d :: ds, rest)
      | _ => ([d, .flawed .ungrammatical], none)

/-- The fields of an object, what is wrong with what follows them, and the text after the object;
nothing when reading has ended in it. -/
structure FieldsReading where
  fields : List (String × Document)
  flaw : Option Flaw
  rest : Option (List Char)

namespace FieldsReading

/-- No fields, before what is `passed` over up to the closing brace. -/
def flawed (passed : Option (List Char)) : FieldsReading :=
  ⟨[], some (Flaw.ofPassed passed), passed⟩

/-- Puts a field in front. -/
def cons (key : String) (d : Document) (reading : FieldsReading) : FieldsReading :=
  { reading with fields := (key, d) :: reading.fields }

/-- The object with these fields. -/
def toReading (reading : FieldsReading) : Reading :=
  (.object reading.fields reading.flaw, reading.rest)

end FieldsReading

/-- Reads the fields of an object, the next one to come, up to the closing brace. The number
bounds the fields and is never reached when it is the length of the text. -/
def readFields (value : List Char → Reading) : Nat → List Char → FieldsReading
  | 0, _ => .flawed none
  | n + 1, cs =>
    match skipSpaces cs with
    | '"' :: rest =>
      match stringBody [] rest with
      | none => .flawed (passFields cs)
      | some (key, rest) =>
        match skipSpaces rest with
        | ':' :: rest =>
          match value rest with
          | (d, none) => (FieldsReading.flawed none).cons key d
          | (d, some rest) =>
            match skipSpaces rest with
            | '}' :: rest => ⟨[(key, d)], none, some rest⟩
            | ',' :: rest => (readFields value n rest).cons key d
            | rest => ⟨[(key, d)], some (.before rest), none⟩
        | _ => (FieldsReading.flawed none).cons key (.flawed .ungrammatical)
    | _ => .flawed none

/-- Reads an array after its opening bracket. -/
def readArray (value : List Char → Reading) (cs : List Char) : Reading :=
  match skipSpaces cs with
  | ']' :: rest => (.array [], some rest)
  | cs =>
    let (items, rest) := readItems value cs.length cs
    (.array items, rest)

/-- Reads an object after its opening brace. -/
def readObject (value : List Char → Reading) (cs : List Char) : Reading :=
  match skipSpaces cs with
  | '}' :: rest => (.object [] none, some rest)
  | cs => (readFields value cs.length cs).toReading

/-- Whether a number or a word begins here. -/
def beginsLiteral : List Char → Bool
  | [] => false
  | c :: _ => c.isDigit || c = '-' || c = 'n' || c = 't' || c = 'f'

/-- Reads a value that is neither an array nor an object. -/
def readScalar : List Char → Reading
  | 'n' :: 'u' :: 'l' :: 'l' :: rest => (.null, some rest)
  | 't' :: 'r' :: 'u' :: 'e' :: rest => (.bool true, some rest)
  | 'f' :: 'a' :: 'l' :: 's' :: 'e' :: rest => (.bool false, some rest)
  | '"' :: rest =>
    match stringBody [] rest with
    | some (text, rest) => (.string text, some rest)
    | none => flawedReading (passString rest)
  | cs =>
    match JsonNumber.written? cs with
    | none =>
      (if beginsLiteral cs then .flawedLiteral .ungrammatical else .flawed .ungrammatical, none)
    | some (written, rest) =>
      match written.number? with
      | some n => (.number n, some rest)
      | none => (.flawedLiteral .valueless, some rest)

/-- Reads a value of at most the given depth; a deeper one is passed over. -/
def readValue : Nat → List Char → Reading
  | 0, cs =>
    match skipSpaces cs with
    | cs@('[' :: _) | cs@('{' :: _) => flawedReading (passValue cs)
    | cs => readScalar cs
  | depth + 1, cs =>
    match skipSpaces cs with
    | '[' :: rest => readArray (readValue depth) rest
    | '{' :: rest => readObject (readValue depth) rest
    | cs => readScalar cs

/-- A document read from a whole text, and whether nothing but white space followed it. -/
structure Whole where
  document : Document
  complete : Bool

/-- Reads a whole text. -/
def ofText (text : String) : Whole :=
  match readValue maxDepth text.toList with
  | (d, none) => ⟨d, false⟩
  | (d, some rest) => ⟨d, (skipSpaces rest).isEmpty⟩

end Document

/-- Reads a whole text as one JSON value. -/
def Json.read? (text : String) : Option Json :=
  let whole := Document.ofText text
  if whole.complete then whole.document.toJson? else none

example : Json.read? " [1, \x7b\"a\": \"\\u00e9\"\x7d] " =
    some (.array [.ofNat 1, .object [("a", .string "é")]]) := by decide +kernel
example : Json.read? "[1,]" = none := by decide +kernel
example : Json.read? "\"\\ud83d\\ude00\"" = some (.string "😀") := by decide +kernel

end WorkflowCompiler
