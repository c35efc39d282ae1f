/-!
# Ordered entries

Values under text keys, listed in the order in which the keys were first put in. JSON objects,
the registry of built nodes and the branches of a fork are all kept this way, because that order
shows in what is written.
-/
namespace WorkflowCompiler

/-- Values under text keys, in order of first insertion. -/
abbrev Entries (α : Type) := List (String × α)

namespace Entries

variable {α β : Type}

/-- The value under `key`, the first one if the key is repeated. -/
def get? : Entries α → String → Option α
  | [], _ => none
  | (k, v) :: rest, key => if k = key then some v else get? rest key

/-- The keys in order. -/
def keys (entries : Entries α) : List String := entries.map Prod.fst

/-- The values in order. -/
def values (entries : Entries α) : List α := entries.map Prod.snd

/-- Whether some entry has this key. -/
def contains (entries : Entries α) (key : String) : Bool := (get? entries key).isSome

/-- Puts a value under a key: a present key keeps its place, a new one goes to the end. -/
def insert : Entries α → String → α → Entries α
  | [], key, value => [(key, value)]
  | (k, v) :: rest, key, value =>
      if k = key then (k, value) :: rest else (k, v) :: insert rest key value

/-- Puts all entries of `more` in, one after the other. -/
def insertAll (entries : Entries α) (more : List (String × α)) : Entries α :=
  more.foldl (fun es e => insert es e.1 e.2) entries

/-- The entries of a list of pairs: a repeated key keeps its first place and its last value. -/
def ofPairs (pairs : List (String × α)) : Entries α := insertAll [] pairs

/-- Changes the value under a key, if there is one. -/
def modify : Entries α → String → (α → α) → Entries α
  | [], _, _ => []
  | (k, v) :: rest, key, f => if k = key then (k, f v) :: rest else (k, v) :: modify rest key f

/-- Takes the entry with this key out and closes the gap. -/
def erase : Entries α → String → Entries α
  | [], _ => []
  | (k, v) :: rest, key => if k = key then rest else (k, v) :: erase rest key

/-- Takes the entry with this key out and lets the last entry fill the gap. -/
def eraseFilling : Entries α → String → Entries α
  | [], _ => []
  | (k, v) :: rest, key =>
      if k = key then
        match rest.getLast? with
        | none => []
        | some last => last :: rest.dropLast
      else (k, v) :: eraseFilling rest key

/-- Applies a function to every value. -/
def mapValues (f : α → β) (entries : Entries α) : Entries β := entries.map fun e => (e.1, f e.2)

@[simp] theorem get?_nil (key : String) : get? ([] : Entries α) key = none := rfl

@[simp] theorem get?_insert_self (entries : Entries α) (key : String) (value : α) :
    get? (insert entries key value) key = some value := by
  induction entries with
  | nil => simp [insert, get?]
  | cons e rest ih =>
    simp only [insert]
    split
    · next h => simp [get?, h]
    · next h => simp [get?, h, ih]

theorem get?_insert_of_ne (entries : Entries α) {key other : String} (value : α)
    (h : other ≠ key) : get? (insert entries key value) other = get? entries other := by
  induction entries with
  | nil => simp [insert, get?, h.symm]
  | cons e rest ih =>
    simp only [insert]
    split
    · next hk => simp [get?, hk, h.symm]
    · next hk => simp [get?, ih]

theorem keys_insert (entries : Entries α) (key : String) (value : α) :
    keys (insert entries key value) =
      if key ∈ keys entries then keys entries else keys entries ++ [key] := by
  induction entries with
  | nil => simp [insert, keys]
  | cons e rest ih =>
    simp only [insert]
    split
    · next h => simp [keys, h]
    · next h =>
      have : keys ((e.1, e.2) :: insert rest key value) = e.1 :: keys (insert rest key value) := rfl
      rw [this, ih]
      by_cases hm : key ∈ keys rest
      · simp [keys] at hm ⊢
        simp [hm]
      · simp [keys] at hm ⊢
        simp [hm, Ne.symm h]

end Entries

end WorkflowCompiler
