import WorkflowCompiler.Json.Reader
import WorkflowCompiler.Number.Style
import WorkflowCompiler.Text.Quoted

/-!
# Decoding JSON

Records, lists, maps and choices are decoded from anything that shows itself as JSON: a value in
memory, a document, or a value held back while a tag was looked for. The first part that does not
fit, in the order in which it is written, is the error.
-/
namespace WorkflowCompiler

/-- Why a text cannot be read on: it is not JSON, or what stands there, JSON or not, is never read
in that place. -/
inductive TextFault
  | notJson
  | expectedValue
  | trailingCharacters
  deriving DecidableEq, Repr

/-- The fault in words. -/
def TextFault.message : TextFault → String
  | .notJson => "invalid JSON"
  | .expectedValue => "expected value"
  | .trailingCharacters => "trailing characters"

/-- Why a value could not be decoded. -/
inductive DecodeError
  | invalidType (found expected : String)
  | invalidValue (found expected : String)
  | invalidLength (length : Nat) (expected : String)
  | unknownVariant (name : String) (known : List String)
  | missingField (name : String)
  | duplicateField (name : String)
  | unreadable (fault : TextFault)
  deriving DecidableEq, Repr

namespace DecodeError

/-- A list of alternatives in words. -/
def alternatives (names : List String) : String :=
  match names.map fun n => "`" ++ n ++ "`" with
  | [a, b] => a ++ " or " ++ b
  | [a] => a
  | many => "one of " ++ ", ".intercalate many

/-- The error in words. -/
def message : DecodeError → String
  | .invalidType found expected => "invalid type: " ++ found ++ ", expected " ++ expected
  | .invalidValue found expected => "invalid value: " ++ found ++ ", expected " ++ expected
  | .invalidLength length expected =>
      "invalid length " ++ toString length ++ ", expected " ++ expected
  | .unknownVariant name known =>
      "unknown variant `" ++ name ++ "`, expected " ++ alternatives known
  | .missingField name => "missing field `" ++ name ++ "`"
  | .duplicateField name => "duplicate field `" ++ name ++ "`"
  | .unreadable fault => fault.message

end DecodeError

/-- What a decoder sees of one level of JSON. An object is `cut` when it is unreadable beyond its
fields. -/
inductive Shape (α : Type)
  | null
  | bool (value : Bool)
  | number (value : JsonNumber)
  | string (value : String)
  | array (items : List α)
  | object (fields : List (String × α)) (cut : Bool)
  | unreadable

namespace Shape

variable {α : Type}

/-- A number in words. -/
def describeNumber : JsonNumber → String
  | .integer n => "integer `" ++ toString n ++ "`"
  | .double d => "floating point `" ++ NumberStyle.json.render d ++ "`"

/-- The error for a part that should have been something else. -/
def mismatch (shape : Shape α) (expected : String) : DecodeError :=
  match shape with
  | .null => .invalidType "null" expected
  | .bool b => .invalidType ("boolean `" ++ toString b ++ "`") expected
  | .number n => .invalidType (describeNumber n) expected
  | .string text => .invalidType ("string " ++ Text.quoted text) expected
  | .array _ => .invalidType "sequence" expected
  | .object _ _ => .invalidType "map" expected
  | .unreadable => .unreadable .notJson

/-- Checks that a part is `null`, as it has to be under the name of a choice. -/
def checkUnit : Shape α → Except DecodeError Unit
  | .null => .ok ()
  | other => .error (other.mismatch "unit")

end Shape

/-- What can be decoded. -/
class Readable (α : Type) where
  /-- The uppermost level. -/
  shape : α → Shape α
  /-- The value as it stands. -/
  toJson : α → Except DecodeError Json
  /-- Leaves out what nobody asks for. -/
  skip : α → Except DecodeError Unit
  /-- The error for more items than a record of so many fields has, the first one being given. -/
  surplus : α → (items fields : Nat) → DecodeError
  /-- The name of a choice, and whether what is written beside it is as it should be. -/
  choice : α → Except DecodeError (String × Except DecodeError Unit)

/-- The uppermost level of a value. -/
def Json.shape : Json → Shape Json
  | .null => .null
  | .bool b => .bool b
  | .number n => .number n
  | .string text => .string text
  | .array items => .array items
  | .object fields => .object fields false

/-- The name of a choice in a value: a text, or the only key of an object. -/
def Json.choice : Json → Except DecodeError (String × Except DecodeError Unit)
  | .string name => .ok (name, .ok ())
  | .object [(name, value)] => .ok (name, value.shape.checkUnit)
  | .object _ => .error (.invalidValue "map" "map with a single key")
  | other => .error (other.shape.mismatch "string or map")

instance : Readable Json where
  shape := Json.shape
  toJson := .ok
  skip _ := .ok ()
  surplus _ items _ := .invalidLength items "fewer elements in array"
  choice := Json.choice

/-- The uppermost level of a document. -/
def Document.shape : Document → Shape Document
  | .null => .null
  | .bool b => .bool b
  | .number n => .number n
  | .string text => .string text
  | .array items => .array items
  | .object fields flaw => .object fields flaw.isSome
  | .flawedLiteral _ => .unreadable
  | .flawed _ => .unreadable

/-- Checks that an object ends after its first field. -/
def Document.checkSingle : List (String × Document) → Option Flaw → Except DecodeError Unit
  | [], none => .ok ()
  | [], some .truncated => .error (.unreadable .notJson)
  | _, _ => .error (.unreadable .expectedValue)

/-- The name of a choice in a document: a text, or the only key of an object. Any other value is not
read beyond its first character; an object without keys has no value to read, and of one with more
keys only the first is read. -/
def Document.choice : Document → Except DecodeError (String × Except DecodeError Unit)
  | .string name => .ok (name, .ok ())
  | .object ((name, value) :: more) flaw => .ok (name, do
      value.shape.checkUnit
      Document.checkSingle more flaw)
  | .object [] (some _) | .flawed _ => .error (.unreadable .notJson)
  | _ => .error (.unreadable .expectedValue)

/-- The error for an item behind the last field of a record. -/
def Document.surplus : Document → DecodeError
  | .flawed .ungrammatical => .unreadable .notJson
  | _ => .unreadable .trailingCharacters

instance : Readable Document where
  shape := Document.shape
  toJson d := match d.toJson? with
    | some value => .ok value
    | none => .error (.unreadable .notJson)
  skip d := if d.isGrammatical then .ok () else .error (.unreadable .notJson)
  surplus d _ _ := d.surplus
  choice := Document.choice

/-- A value that was held back while the tag of its record was looked for. -/
structure HeldBack where
  value : Json

instance : Readable HeldBack where
  shape held := match held.value with
    | .null => .null
    | .bool b => .bool b
    | .number n => .number n
    | .string text => .string text
    | .array items => .array (items.map HeldBack.mk)
    | .object fields => .object (Entries.mapValues HeldBack.mk fields) false
  toJson held := .ok held.value
  skip _ := .ok ()
  surplus _ items fields := .invalidLength items
    (if fields = 1 then "1 element in sequence" else toString fields ++ " elements in sequence")
  choice held := held.value.choice

namespace Decode

variable {α β σ : Type} [Readable α]

/-- Any value. -/
def json (x : α) : Except DecodeError Json := Readable.toJson x

/-- A text. -/
def string (x : α) : Except DecodeError String :=
  match Readable.shape x with
  | .string text => .ok text
  | other => .error (other.mismatch "a string")

/-- A truth value. -/
def bool (x : α) : Except DecodeError Bool :=
  match Readable.shape x with
  | .bool b => .ok b
  | other => .error (other.mismatch "a boolean")

/-- A whole number that is not negative; `kind` names the range in messages. -/
def natural (kind : String) (x : α) : Except DecodeError Nat :=
  match Readable.shape x with
  | .number (.integer n) =>
      if 0 ≤ n then .ok n.toNat
      else .error (.invalidValue (Shape.describeNumber (.integer n)) kind)
  | other => .error (other.mismatch kind)

/-- Something that may be `null`. -/
def optional (item : α → Except DecodeError β) (x : α) : Except DecodeError (Option β) :=
  match Readable.shape x with
  | .null => .ok none
  | _ => (item x).map some

/-- A list. -/
def list (item : α → Except DecodeError β) (x : α) : Except DecodeError (List β) :=
  match Readable.shape x with
  | .array items => items.mapM item
  | other => .error (other.mismatch "a sequence")

/-- An object with any keys. -/
def map (item : α → Except DecodeError β) (x : α) : Except DecodeError (Entries β) :=
  match Readable.shape x with
  | .object fields cut => do
      let pairs ← fields.mapM fun field => return (field.1, ← item field.2)
      if cut then throw (.unreadable .notJson)
      return Entries.ofPairs pairs
  | other => .error (other.mismatch "a map")

/-- One of a few names. -/
def choice (names : List (String × β)) (x : α) : Except DecodeError β := do
  let (name, beside) ← Readable.choice x
  match Entries.get? names name with
  | none => .error (.unknownVariant name (Entries.keys names))
  | some b => beside.map fun _ => b

/-- A field of a record: its names, the first being the one in messages, and how it is stored. -/
structure Field (α σ : Type) where
  names : List String
  store : α → σ → Except DecodeError σ
  required : Bool

/-- The name of a field in messages. -/
def Field.name (field : Field α σ) : String := field.names.headD ""

/-- A field that must be there. -/
def required (name : String) (item : α → Except DecodeError β) (set : β → σ → σ) : Field α σ where
  names := [name]
  store x s := (item x).map fun b => set b s
  required := true

/-- A field that may be left out. -/
def defaulted (name : String) (item : α → Except DecodeError β) (set : β → σ → σ) : Field α σ where
  names := [name]
  store x s := (item x).map fun b => set b s
  required := false

/-- A field that may be left out, with a second name. -/
def aliased (name other : String) (item : α → Except DecodeError β) (set : β → σ → σ) :
    Field α σ where
  names := [name, other]
  store x s := (item x).map fun b => set b s
  required := false

/-- The error for a required field that is not among `seen`. -/
def checkRequired (fields : List (Field α σ)) (seen : List String) : Except DecodeError Unit :=
  match fields.find? fun field => field.required && !seen.contains field.name with
  | some field => .error (.missingField field.name)
  | none => .ok ()

/-- Stores the fields of an object one after the other; `other` takes those of no record field. -/
def storeFields (fields : List (Field α σ)) (other : String → α → σ → Except DecodeError σ)
    (cut : Bool) : (seen : List String) → σ → List (String × α) → Except DecodeError σ
  | seen, s, [] => do
      if cut then throw (.unreadable .notJson)
      checkRequired fields seen
      return s
  | seen, s, (key, x) :: rest =>
      match fields.find? fun field => field.names.contains key with
      | some field =>
        if seen.contains field.name then .error (.duplicateField field.name)
        else do storeFields fields other cut (field.name :: seen) (← field.store x s) rest
      | none => do storeFields fields other cut seen (← other key x s) rest

/-- The number of elements in words. -/
def elements (n : Nat) : String :=
  if n = 1 then "1 element" else toString n ++ " elements"

/-- The error for a required field that is not among the first `given` ones. -/
def checkGiven (title : String) (fields : List (Field α σ)) (given : Nat) :
    Except DecodeError Unit :=
  match (fields.drop given).findIdx? Field.required with
  | some i => .error (.invalidLength (given + i) (title ++ " with " ++ elements fields.length))
  | none => .ok ()

/-- Stores the items of an array in the order of the fields. -/
def storeItems (title : String) (fields : List (Field α σ)) (items : List α) :
    List (Field α σ) → List α → σ → Except DecodeError σ
  | [], [], s => .ok s
  | [], x :: _, _ => .error (Readable.surplus x items.length fields.length)
  | _ :: _, [], s => do
      checkGiven title fields items.length
      return s
  | field :: more, x :: xs, s => do storeItems title fields items more xs (← field.store x s)

/-- A record: an object with these fields, further ones being skipped, or an array of them in
order. `blank` holds the values of fields that are left out. -/
def record (title : String) (fields : List (Field α σ)) (blank : σ) (x : α) :
    Except DecodeError σ :=
  match Readable.shape x with
  | .array items => storeItems title fields items fields items blank
  | .object entries cut =>
      storeFields fields (fun _ x s => (Readable.skip x).map fun _ => s) cut [] blank entries
  | other => .error (other.mismatch title)

/-- A record that keeps what is in none of its fields; only objects are accepted. -/
def openRecord (title : String) (fields : List (Field α σ)) (keep : String → Json → σ → σ)
    (blank : σ) (x : α) : Except DecodeError σ :=
  match Readable.shape x with
  | .object entries cut =>
      storeFields fields (fun key x s => (json x).map fun value => keep key value s) cut [] blank
        entries
  | other => .error (other.mismatch title)

end Decode

/-- Decodes a whole text. Of a part that does not fit and a place where the text is no JSON, the
earlier one is the error. -/
def Document.decode {β : Type} (decoder : Document → Except DecodeError β) (text : String) :
    Except DecodeError β := do
  let whole := Document.ofText text
  let value ← decoder whole.document
  if whole.complete then return value else throw (.unreadable .notJson)

example : Document.decode (Decode.choice [("draft", 0)]) "\x7b\"draft\": null\x7d" = .ok 0 := by
  rfl
example : Document.decode (Decode.choice [("draft", 0)]) "\x7b\x7d" =
    .error (.unreadable .expectedValue) := by rfl
example : Document.decode (Decode.choice [("draft", 0)]) "nope" =
    .error (.unreadable .expectedValue) := by rfl
example : Document.decode (Decode.choice [("draft", 0)]) "\x7b\"draft\": null, \"x\": 1\x7d" =
    .error (.unreadable .expectedValue) := by rfl
example : Document.decode (Decode.choice [("draft", 0)]) "\x7b\"draft\": null" =
    .error (.unreadable .notJson) := by rfl

end WorkflowCompiler
