/-!
# Numbered cells

Values that are known by the numbers of the cells they stand in. Taking a value out leaves its cell
empty and all other numbers as they are, and the cell emptied last is filled first.
-/
namespace WorkflowCompiler

/-- Values in numbered cells. -/
structure Slab (α : Type) where
  cells : List (Option α) := []
  /-- The empty cells, the one emptied last at the head. -/
  free : List Nat := []
  deriving DecidableEq, Repr

namespace Slab

variable {α β : Type}

/-- The value in a cell, nothing when there is none. -/
def get? (s : Slab α) (i : Nat) : Option α := s.cells[i]?.join

/-- The cell that the next value takes. -/
def next (s : Slab α) : Nat := s.free.headD s.cells.length

/-- Puts a value into the cell that was emptied last, or into a new one. -/
def put (s : Slab α) (x : α) : Slab α :=
  match s.free with
  | i :: free => ⟨s.cells.set i (some x), free⟩
  | [] => ⟨s.cells ++ [some x], []⟩

/-- Takes the value out of a cell; nothing when there is none in it. -/
def take? (s : Slab α) (i : Nat) : Option (Slab α) :=
  (s.get? i).map fun _ => ⟨s.cells.set i none, i :: s.free⟩

/-- The number of values. -/
def count (s : Slab α) : Nat := (s.cells.filterMap id).length

/-- Changes all values and moves none. -/
def map (f : α → β) (s : Slab α) : Slab β := ⟨s.cells.map (Option.map f), s.free⟩

/-- Whether each cell that is listed as empty is there, is empty, and is listed once. -/
structure Valid (s : Slab α) : Prop where
  free : ∀ i ∈ s.free, s.cells[i]? = some none
  nodup : s.free.Nodup

theorem valid_empty : Valid ({} : Slab α) := by
  constructor <;> simp

theorem get?_eq_some {s : Slab α} {i : Nat} {x : α} :
    s.get? i = some x ↔ s.cells[i]? = some (some x) := by
  simp [get?, Option.join_eq_some_iff]

theorem lt_of_get? {s : Slab α} {i : Nat} {x : α} (h : s.get? i = some x) : i < s.cells.length :=
  (List.getElem?_eq_some_iff.mp (get?_eq_some.mp h)).1

@[simp] theorem get?_map (f : α → β) (s : Slab α) (i : Nat) : (s.map f).get? i = (s.get? i).map f := by
  unfold get? map
  rw [List.getElem?_map]
  rcases s.cells[i]? with _ | _ | x <;> rfl

/-! ## Filling a cell -/

variable {s : Slab α}

theorem map_put (f : α → β) (s : Slab α) (x : α) : (s.put x).map f = (s.map f).put (f x) := by
  unfold put map
  cases s.free <;> simp [List.map_set]

theorem Valid.get?_next (v : s.Valid) : s.get? s.next = none := by
  unfold get? next
  cases hf : s.free with
  | nil => simp
  | cons i free => simp [v.free i (by simp [hf])]

theorem Valid.get?_put (v : s.Valid) (x : α) (i : Nat) :
    (s.put x).get? i = if i = s.next then some x else s.get? i := by
  unfold put get? next
  cases hf : s.free with
  | nil =>
    by_cases h : i = s.cells.length
    · simp [h]
    · have hnext : ¬ i = [].headD s.cells.length := h
      rw [if_neg hnext]
      rcases Nat.lt_or_gt_of_ne h with hlt | hgt
      · rw [List.getElem?_append_left hlt]
      · rw [List.getElem?_eq_none (Nat.le_of_lt hgt), List.getElem?_eq_none]
        simpa using Nat.succ_le_of_lt hgt
  | cons j free =>
    have hlt : j < s.cells.length :=
      (List.getElem?_eq_some_iff.mp (v.free j (by simp [hf]))).1
    by_cases h : i = j
    · simp [h, hlt]
    · simp [h, Ne.symm h]

theorem Valid.put (v : s.Valid) (x : α) : (s.put x).Valid := by
  unfold Slab.put
  cases hf : s.free with
  | nil => constructor <;> simp
  | cons j free =>
    obtain ⟨hj, nodup⟩ := List.nodup_cons.mp (hf ▸ v.nodup)
    refine ⟨fun i hi => ?_, nodup⟩
    have hne : j ≠ i := fun he => hj (he ▸ hi)
    simpa [List.getElem?_set, hne] using v.free i (by simp [hf, hi])

theorem count_set (cells : List (Option α)) (i : Nat) (x y : Option α) (h : cells[i]? = some x) :
    ((cells.set i y).filterMap id).length + (x.toList).length =
      (cells.filterMap id).length + y.toList.length := by
  induction cells generalizing i with
  | nil => simp at h
  | cons cell cells ih =>
    cases i with
    | zero =>
      obtain rfl : cell = x := by simpa using h
      rcases cell with _ | a <;> rcases y with _ | b <;> simp
    | succ i =>
      have hrest := ih i (by simpa using h)
      rcases cell with _ | a
      · simpa using hrest
      · have hrest := congrArg (· + 1) hrest
        simpa [Nat.add_right_comm] using hrest

theorem Valid.count_put (v : s.Valid) (x : α) : (s.put x).count = s.count + 1 := by
  unfold count Slab.put
  cases hf : s.free with
  | nil => simp
  | cons j free => simpa using count_set s.cells j none (some x) (v.free j (by simp [hf]))

/-! ## Emptying a cell -/

section Take

variable {i : Nat} {x : α} (h : s.get? i = some x)

include h

theorem take?_eq : s.take? i = some ⟨s.cells.set i none, i :: s.free⟩ := by simp [take?, h]

variable {t : Slab α} (taken : s.take? i = some t)

include taken

theorem get?_take (j : Nat) : t.get? j = if j = i then none else s.get? j := by
  obtain rfl := Option.some.inj ((take?_eq h).symm.trans taken)
  unfold get?
  by_cases he : j = i
  · simp [he, lt_of_get? h]
  · simp [he, Ne.symm he]

theorem Valid.take (v : s.Valid) : t.Valid := by
  obtain rfl := Option.some.inj ((take?_eq h).symm.trans taken)
  refine ⟨fun j hj => ?_, List.nodup_cons.mpr ⟨fun hi => ?_, v.nodup⟩⟩
  · by_cases he : i = j
    · subst he
      simp [lt_of_get? h]
    · have hj : j ∈ s.free := (List.mem_cons.mp hj).resolve_left (Ne.symm he)
      simpa [List.getElem?_set, he] using v.free j hj
  · have hnone := v.free i hi
    rw [get?_eq_some.mp h] at hnone
    cases hnone

theorem count_take : t.count + 1 = s.count := by
  obtain rfl := Option.some.inj ((take?_eq h).symm.trans taken)
  exact count_set s.cells i (some x) none (get?_eq_some.mp h)

end Take

end Slab

end WorkflowCompiler
