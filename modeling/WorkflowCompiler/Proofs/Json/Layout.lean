import WorkflowCompiler.Json.Printer
import WorkflowCompiler.Json.Reader

/-!
# Layouts of a JSON text

The compact and the indented text of a value differ only in the blanks between its parts. A layout
says which blanks stand there, and both texts are that of a layout.
-/
namespace WorkflowCompiler

namespace Json

mutual

/-- How deep arrays and objects nest in a value. -/
def depth : Json → Nat
  | .array items => itemsDepth items + 1
  | .object fields => fieldsDepth fields + 1
  | _ => 0

/-- How deep they nest in the deepest of some items. -/
def itemsDepth : List Json → Nat
  | [] => 0
  | item :: rest => max (depth item) (itemsDepth rest)

/-- How deep they nest in the deepest of some fields. -/
def fieldsDepth : List (String × Json) → Nat
  | [] => 0
  | (_, value) :: rest => max (depth value) (fieldsDepth rest)

end

theorem itemsDepth_le_iff {items : List Json} {n : Nat} :
    itemsDepth items ≤ n ↔ ∀ item ∈ items, item.depth ≤ n := by
  induction items with
  | nil => simp [itemsDepth]
  | cons item rest ih => rw [itemsDepth, Nat.max_le, ih, List.forall_mem_cons]

theorem fieldsDepth_le_iff {fields : List (String × Json)} {n : Nat} :
    fieldsDepth fields ≤ n ↔ ∀ field ∈ fields, field.2.depth ≤ n := by
  induction fields with
  | nil => simp [fieldsDepth]
  | cons field rest ih => rw [fieldsDepth, Nat.max_le, ih, List.forall_mem_cons]

/-- What holds of a value as soon as it holds of its items and fields holds of every value. -/
theorem induction {P : Json → Prop} (null : P .null) (bool : ∀ b, P (.bool b))
    (number : ∀ n, P (.number n)) (string : ∀ text, P (.string text))
    (array : ∀ items, (∀ item ∈ items, P item) → P (.array items))
    (object : ∀ fields : JsonObject, (∀ field ∈ fields, P field.2) → P (.object fields)) :
    (value : Json) → P value
  | .null => null
  | .bool b => bool b
  | .number n => number n
  | .string text => string text
  | .array items => array items fun item _ =>
      induction null bool number string array object item
  | .object fields => object fields fun field h =>
      have : sizeOf field.2 < sizeOf fields := by
        have := List.sizeOf_lt_of_mem h
        cases field
        simp at this ⊢
        omega
      induction null bool number string array object field.2

/-- Whether all numbers of a value are integers of 64 bits. -/
inductive Integral : Json → Prop
  | null : Integral .null
  | bool (b : Bool) : Integral (.bool b)
  | integer {n : Int} (low : Integer.minSigned ≤ n) (high : n ≤ Integer.maxUnsigned) :
      Integral (.number (.integer n))
  | string (text : String) : Integral (.string text)
  | array {items : List Json} (each : ∀ item ∈ items, Integral item) : Integral (.array items)
  | object {fields : JsonObject} (each : ∀ field ∈ fields, Integral field.2) :
      Integral (.object fields)

attribute [simp] Integral.null Integral.bool Integral.string

@[simp] theorem integral_array {items : List Json} :
    Integral (.array items) ↔ ∀ item ∈ items, Integral item :=
  ⟨fun h => by cases h; assumption, .array⟩

@[simp] theorem integral_object {fields : JsonObject} :
    Integral (.object fields) ↔ ∀ field ∈ fields, Integral field.2 :=
  ⟨fun h => by cases h; assumption, .object⟩

@[simp] theorem integral_integer {n : Int} :
    Integral (.number (.integer n)) ↔ Integer.minSigned ≤ n ∧ n ≤ Integer.maxUnsigned :=
  ⟨fun h => by cases h; exact ⟨‹_›, ‹_›⟩, fun h => .integer h.1 h.2⟩

end Json

open Document (isSpace)

/-- The blanks of a text: in front of what stands at a level, and after a colon. -/
structure Layout where
  line : Nat → List Char
  colon : List Char
  line_blank : ∀ level, ∀ c ∈ line level, isSpace c = true
  colon_blank : ∀ c ∈ colon, isSpace c = true

namespace Layout

/-- No blanks at all. -/
def tight : Layout where
  line _ := []
  colon := []
  line_blank := by simp
  colon_blank := by simp

/-- A line for each part, two blanks a level. -/
def lines : Layout where
  line level := '\n' :: List.replicate (2 * level) ' '
  colon := [' ']
  line_blank := by simp +contextual [isSpace]
  colon_blank := by simp [isSpace]

variable (layout : Layout)

mutual

/-- The text of a value that begins at a level. -/
def text (level : Nat) : Json → List Char
  | .null => ['n', 'u', 'l', 'l']
  | .bool true => ['t', 'r', 'u', 'e']
  | .bool false => ['f', 'a', 'l', 's', 'e']
  | .number n => n.render.toList
  | .string text => (Json.quote text).toList
  | .array [] => ['[', ']']
  | .array (item :: rest) =>
      '[' :: (layout.line (level + 1) ++ (text (level + 1) item ++ (moreItems (level + 1) rest ++
        (layout.line level ++ [']']))))
  | .object [] => ['{', '}']
  | .object ((key, value) :: rest) =>
      '{' :: (layout.line (level + 1) ++ ((Json.quote key).toList ++ ':' :: (layout.colon ++
        (text (level + 1) value ++ (moreFields (level + 1) rest ++ (layout.line level ++ ['}']))))))

/-- The text of the items behind the first. -/
def moreItems (level : Nat) : List Json → List Char
  | [] => []
  | item :: rest => ',' :: (layout.line level ++ (text level item ++ moreItems level rest))

/-- The text of the fields behind the first. -/
def moreFields (level : Nat) : List (String × Json) → List Char
  | [] => []
  | (key, value) :: rest =>
      ',' :: (layout.line level ++ ((Json.quote key).toList ++ ':' :: (layout.colon ++
        (text level value ++ moreFields level rest))))

end

end Layout

namespace Json

open Layout

theorem toList_compactItems {level : Nat} {item : Json} {rest : List Json}
    (h : ∀ x ∈ item :: rest, x.compact.toList = tight.text level x) :
    (compactItems (item :: rest)).toList =
      tight.text level item ++ tight.moreItems level rest := by
  induction rest generalizing item with
  | nil => simp [compactItems, moreItems, h item]
  | cons next rest ih =>
    have behind := ih fun x hx => h x (List.mem_cons_of_mem _ hx)
    simp [compactItems, moreItems, behind, h item, tight]

theorem toList_compactFields {level : Nat} {field : String × Json} {rest : List (String × Json)}
    (h : ∀ x ∈ field :: rest, x.2.compact.toList = tight.text level x.2) :
    (compactFields (field :: rest)).toList =
      (quote field.1).toList ++ ':' :: (tight.text level field.2 ++
        tight.moreFields level rest) := by
  induction rest generalizing field with
  | nil => simp [compactFields, moreFields, h field]
  | cons next rest ih =>
    have behind := ih fun x hx => h x (List.mem_cons_of_mem _ hx)
    simp [compactFields, moreFields, behind, h field, tight]

/-- The compact text has no blanks. -/
theorem toList_compact (value : Json) (level : Nat) :
    value.compact.toList = tight.text level value := by
  induction value using Json.induction generalizing level with
  | null => rfl
  | bool b => cases b <;> rfl
  | number n => simp [compact, text]
  | string text => simp [compact, Layout.text]
  | array items ih =>
    cases items with
    | nil => rfl
    | cons item rest =>
      simp [compact, text, tight, toList_compactItems fun x hx => ih x hx (level + 1)]
  | object fields ih =>
    cases fields with
    | nil => rfl
    | cons field rest =>
      simp [compact, text, tight, toList_compactFields fun x hx => ih x hx (level + 1)]

theorem toList_newLine (level : Nat) : (newLine level).toList = lines.line level := by
  simp [newLine, lines]

theorem toList_indentedItems {level : Nat} {item : Json} {rest : List Json}
    (h : ∀ x ∈ item :: rest, (x.indented level).toList = lines.text level x) :
    (indentedItems level (item :: rest)).toList =
      lines.line level ++ (lines.text level item ++ lines.moreItems level rest) := by
  induction rest generalizing item with
  | nil => simp [indentedItems, moreItems, toList_newLine, h item]
  | cons next rest ih =>
    have behind := ih fun x hx => h x (List.mem_cons_of_mem _ hx)
    simp [indentedItems, moreItems, toList_newLine, behind, h item]

theorem toList_indentedFields {level : Nat} {field : String × Json} {rest : List (String × Json)}
    (h : ∀ x ∈ field :: rest, (x.2.indented level).toList = lines.text level x.2) :
    (indentedFields level (field :: rest)).toList =
      lines.line level ++ ((quote field.1).toList ++ ':' :: (lines.colon ++
        (lines.text level field.2 ++ lines.moreFields level rest))) := by
  have colon : lines.colon = [' '] := rfl
  induction rest generalizing field with
  | nil => simp [indentedFields, moreFields, toList_newLine, colon, h field]
  | cons next rest ih =>
    have behind := ih fun x hx => h x (List.mem_cons_of_mem _ hx)
    simp [indentedFields, moreFields, toList_newLine, colon, behind, h field]

/-- The indented text has a line for each part. -/
theorem toList_indented (value : Json) (level : Nat) :
    (value.indented level).toList = lines.text level value := by
  induction value using Json.induction generalizing level with
  | null => simp [indented, text]
  | bool b => cases b <;> simp [indented, text]
  | number n => simp [indented, text]
  | string text => simp [indented, Layout.text]
  | array items ih =>
    cases items with
    | nil => simp [indented, text]
    | cons item rest =>
      simp [indented, text, toList_newLine,
        toList_indentedItems fun x hx => ih x hx (level + 1)]
  | object fields ih =>
    cases fields with
    | nil => simp [indented, text]
    | cons field rest =>
      simp [indented, text, toList_newLine,
        toList_indentedFields fun x hx => ih x hx (level + 1)]

end Json

end WorkflowCompiler
