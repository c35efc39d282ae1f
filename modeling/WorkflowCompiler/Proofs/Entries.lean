import Mathlib.Data.List.Perm.Basic
import WorkflowCompiler.Entries

/-!
# Laws of ordered entries

What looking up, putting in, changing and taking out do to each other, in terms of keys and values.
-/
namespace WorkflowCompiler

/-- Grouping a list by keys that are all listed once keeps all of it. -/
theorem perm_flatMap_filter {α : Type} (key : α → String) {ids : List String} (nodup : ids.Nodup)
    {xs : List α} (covered : ∀ x ∈ xs, key x ∈ ids) :
    (ids.flatMap fun id => xs.filter (key · = id)).Perm xs := by
  induction ids generalizing xs with
  | nil =>
    obtain rfl : xs = [] :=
      List.eq_nil_iff_forall_not_mem.mpr fun x hx => by simpa using covered x hx
    exact .nil
  | cons id ids ih =>
    obtain ⟨fresh, nodup⟩ := List.nodup_cons.mp nodup
    have rest : ∀ other ∈ ids, xs.filter (key · = other) =
        (xs.filter fun x => !decide (key x = id)).filter (key · = other) := by
      intro other hother
      rw [List.filter_filter]
      refine List.filter_congr fun x _ => ?_
      have hne : other ≠ id := fun he => fresh (he ▸ hother)
      by_cases he : key x = other <;> simp [he, hne]
    have others : ∀ x ∈ xs.filter fun x => !decide (key x = id), key x ∈ ids := by
      intro x hx
      obtain ⟨hx, hne⟩ := List.mem_filter.mp hx
      exact (List.mem_cons.mp (covered x hx)).resolve_left (by simpa using hne)
    rw [List.flatMap_cons, List.flatMap_congr rest]
    exact ((ih nodup others).append_left _).trans (List.filter_append_perm _ _)

namespace Entries

variable {α β : Type}

theorem get?_insert (entries : Entries α) (key other : String) (value : α) :
    get? (insert entries key value) other =
      if other = key then some value else get? entries other := by
  by_cases h : other = key
  · subst h; simp
  · rw [get?_insert_of_ne entries value h, if_neg h]

theorem get?_modify (entries : Entries α) (key other : String) (f : α → α) :
    get? (modify entries key f) other =
      if other = key then (get? entries other).map f else get? entries other := by
  induction entries with
  | nil => simp [modify]
  | cons e rest ih =>
    by_cases he : e.1 = key <;> by_cases ho : e.1 = other <;> grind [modify, get?]

theorem mem_keys_of_insert {entries : Entries α} {key other : String} {value : α}
    (h : other ∈ keys (insert entries key value)) : other ∈ keys entries ∨ other = key := by
  rw [keys_insert] at h
  split at h
  · exact .inl h
  · simpa using h

/-- What is found after an insertion is the new value, or was found before. -/
theorem get?_insert_cases {entries : Entries α} {key other : String} {value found : α}
    (h : get? (insert entries key value) other = some found) :
    (other = key ∧ found = value) ∨ (other ≠ key ∧ get? entries other = some found) := by
  rw [get?_insert] at h
  split at h
  · next he => exact .inl ⟨he, (Option.some.inj h).symm⟩
  · next he => exact .inr ⟨he, h⟩

/-- What is found after a change is the changed value, or was found before. -/
theorem get?_modify_cases {entries : Entries α} {key other : String} {f : α → α} {found : α}
    (h : get? (modify entries key f) other = some found) :
    (other = key ∧ ∃ old, get? entries key = some old ∧ f old = found) ∨
      (other ≠ key ∧ get? entries other = some found) := by
  rw [get?_modify] at h
  split at h
  · next he => exact .inl ⟨he, Option.map_eq_some_iff.mp (he ▸ h)⟩
  · next he => exact .inr ⟨he, h⟩

@[simp] theorem keys_modify (entries : Entries α) (key : String) (f : α → α) :
    keys (modify entries key f) = keys entries := by
  induction entries with
  | nil => rfl
  | cons e rest ih =>
    simp only [modify]
    split
    · rfl
    · simpa [keys] using ih

theorem contains_iff (entries : Entries α) (key : String) :
    contains entries key = true ↔ key ∈ keys entries := by
  induction entries with
  | nil => simp [contains, keys]
  | cons e rest ih =>
    by_cases h : e.1 = key
    · simp [contains, get?, keys, h]
    · simpa [contains, get?, keys, h, Ne.symm h] using ih

theorem contains_of_get? {entries : Entries α} {key : String} {value : α}
    (h : get? entries key = some value) : contains entries key = true := by
  simp [contains, h]

theorem exists_get?_of_contains {entries : Entries α} {key : String}
    (h : contains entries key = true) : ∃ value, get? entries key = some value :=
  Option.isSome_iff_exists.mp h

theorem contains_insert (entries : Entries α) (key other : String) (value : α) :
    contains (insert entries key value) other = (other == key || contains entries other) := by
  by_cases h : other = key <;> simp [contains, get?_insert, h]

@[simp] theorem contains_modify (entries : Entries α) (key other : String) (f : α → α) :
    contains (modify entries key f) other = contains entries other := by
  by_cases h : other = key <;> simp [contains, get?_modify, h]

theorem mem_of_get? {entries : Entries α} {key : String} {value : α}
    (h : get? entries key = some value) : (key, value) ∈ entries := by
  induction entries with
  | nil => simp at h
  | cons e rest ih =>
    by_cases hk : e.1 = key
    · have hv : e.2 = value := by simpa [get?, hk] using h
      subst hk; subst hv; exact List.mem_cons_self
    · exact List.mem_cons_of_mem _ (ih (by simpa [get?, hk] using h))

theorem get?_of_mem {entries : Entries α} {key : String} {value : α}
    (nodup : (keys entries).Nodup) (h : (key, value) ∈ entries) :
    get? entries key = some value := by
  induction entries with
  | nil => simp at h
  | cons e rest ih =>
    have hn := List.nodup_cons.mp nodup
    rcases List.mem_cons.mp h with h | h
    · subst h; simp [get?]
    · have hk : e.1 ≠ key := by
        intro he
        exact hn.1 (he ▸ List.mem_map_of_mem (f := Prod.fst) h)
      simpa [get?, hk] using ih hn.2 h

theorem nodup_keys_insert {entries : Entries α} (nodup : (keys entries).Nodup) (key : String)
    (value : α) : (keys (insert entries key value)).Nodup := by
  rw [keys_insert]
  split
  · exact nodup
  · next h =>
    refine List.nodup_append.mpr ⟨nodup, by simp, ?_⟩
    intro a ha b hb
    rw [List.mem_singleton] at hb
    subst hb
    exact fun he => h (he ▸ ha)

theorem nodup_keys_insertAll {entries : Entries α} (nodup : (keys entries).Nodup)
    (more : List (String × α)) : (keys (insertAll entries more)).Nodup := by
  induction more generalizing entries with
  | nil => exact nodup
  | cons e more ih => exact ih (nodup_keys_insert nodup e.1 e.2)

/-- Entries are listed in the order in which their keys are first put in. -/
theorem keys_insertAll (entries : Entries α) (more : List (String × α)) :
    keys (insertAll entries more) =
      keys entries ++ ((more.map Prod.fst).filter fun key => key ∉ keys entries).eraseDups := by
  induction more generalizing entries with
  | nil => simp [insertAll]
  | cons e more ih =>
    show keys (insertAll (insert entries e.1 e.2) more) = _
    rw [ih, keys_insert, List.map_cons]
    by_cases old : e.1 ∈ keys entries
    · simp [old]
    · rw [if_neg old, List.filter_cons_of_pos (by simpa using old), List.eraseDups_cons,
        List.filter_filter, List.append_assoc, List.singleton_append]
      congr 3
      refine List.filter_congr fun key _ => ?_
      by_cases he : key = e.1 <;> simp [he]

theorem keys_ofPairs (pairs : List (String × α)) :
    keys (ofPairs pairs) = (pairs.map Prod.fst).eraseDups := by
  refine (keys_insertAll ([] : Entries α) pairs).trans ?_
  rw [List.filter_eq_self.mpr fun key _ => by simp [keys]]
  rfl

theorem nodup_keys_ofPairs (pairs : List (String × α)) : (keys (ofPairs pairs)).Nodup :=
  nodup_keys_insertAll (by simp [keys]) pairs

theorem get?_erase_of_ne (entries : Entries α) {key other : String} (h : other ≠ key) :
    get? (erase entries key) other = get? entries other := by
  induction entries with
  | nil => rfl
  | cons e rest ih => grind [erase, get?]

/-- Looking a key up after putting many entries in: the last entry with that key counts. -/
theorem get?_insertAll (entries : Entries α) (more : List (String × α)) (key : String) :
    get? (insertAll entries more) key =
      ((more.reverse.find? fun e => e.1 = key).map Prod.snd).or (get? entries key) := by
  induction more generalizing entries with
  | nil => simp [insertAll]
  | cons e more ih =>
    have hstep : insertAll entries (e :: more) = insertAll (insert entries e.1 e.2) more := rfl
    rw [hstep, ih, get?_insert, List.reverse_cons, List.find?_append]
    by_cases h : e.1 = key
    · cases more.reverse.find? (fun e => e.1 = key) <;> simp [h]
    · cases more.reverse.find? (fun e => e.1 = key) <;> simp [h, Ne.symm h]

theorem get?_ofPairs_isSome (pairs : List (String × α)) (key : String) :
    (get? (ofPairs pairs) key).isSome ↔ key ∈ pairs.map Prod.fst := by
  have h := get?_insertAll ([] : Entries α) pairs key
  simp only [get?_nil, Option.or_none] at h
  rw [show get? (ofPairs pairs) key = _ from h, Option.isSome_map, List.find?_isSome]
  simp

theorem mem_of_get?_ofPairs {pairs : List (String × α)} {key : String} {value : α}
    (h : get? (ofPairs pairs) key = some value) : (key, value) ∈ pairs := by
  have hall := get?_insertAll ([] : Entries α) pairs key
  rw [show insertAll [] pairs = ofPairs pairs from rfl, h, get?_nil, Option.or_none] at hall
  obtain ⟨e, he, rfl⟩ := Option.map_eq_some_iff.mp hall.symm
  have hkey : e.1 = key := by simpa using List.find?_some he
  rw [← hkey]
  exact List.mem_reverse.mp (List.mem_of_find?_eq_some he)

theorem get?_of_not_mem {entries : Entries α} {key : String} (h : key ∉ keys entries) :
    get? entries key = none := by
  cases hget : get? entries key with
  | none => rfl
  | some value => exact absurd (List.mem_map_of_mem (mem_of_get? hget)) h

theorem get?_append (entries more : Entries α) (key : String) :
    get? (entries ++ more) key = (get? entries key).or (get? more key) := by
  induction entries with
  | nil => rfl
  | cons e rest ih =>
    by_cases h : e.1 = key
    · simp [get?, h]
    · simpa [get?, h] using ih

theorem mem_values_iff {entries : Entries α} (nodup : (keys entries).Nodup) (value : α) :
    value ∈ values entries ↔ ∃ key, get? entries key = some value := by
  constructor
  · intro h
    obtain ⟨e, he, rfl⟩ := List.mem_map.mp h
    exact ⟨e.1, get?_of_mem nodup he⟩
  · rintro ⟨key, h⟩
    exact List.mem_map_of_mem (f := Prod.snd) (mem_of_get? h)

theorem insert_of_not_mem {entries : Entries α} {key : String} (value : α)
    (h : key ∉ keys entries) : insert entries key value = entries ++ [(key, value)] := by
  induction entries with
  | nil => rfl
  | cons e rest ih =>
    rw [keys, List.map_cons, List.mem_cons, not_or] at h
    rw [insert, if_neg (Ne.symm h.1), ih h.2, List.cons_append]

theorem insertAll_of_nodup {entries more : Entries α} (h : (keys (entries ++ more)).Nodup) :
    insertAll entries more = entries ++ more := by
  induction more generalizing entries with
  | nil => exact (List.append_nil entries).symm
  | cons e more ih =>
    have split : entries ++ e :: more = (entries ++ [e]) ++ more := by simp
    have new : e.1 ∉ keys entries := by
      intro old
      rw [keys, List.map_append, List.nodup_append] at h
      exact h.2.2 e.1 old e.1 (by simp) rfl
    show insertAll (insert entries e.1 e.2) more = _
    rw [insert_of_not_mem e.2 new, split]
    exact ih (split ▸ h)

/-- Entries with distinct keys stay as they are put in. -/
theorem ofPairs_of_nodup {pairs : Entries α} (h : (keys pairs).Nodup) : ofPairs pairs = pairs :=
  @insertAll_of_nodup α [] pairs h

/-! ## Taking out -/

theorem nodup_keys_of_perm {entries other : Entries α} (h : entries.Perm other)
    (nodup : (keys entries).Nodup) : (keys other).Nodup := (h.map Prod.fst).nodup_iff.mp nodup

/-- The order of entries with distinct keys does not matter for looking up. -/
theorem get?_of_perm {entries other : Entries α} (h : entries.Perm other)
    (nodup : (keys entries).Nodup) (key : String) : get? entries key = get? other key := by
  cases hget : get? entries key with
  | some value =>
    exact (get?_of_mem (nodup_keys_of_perm h nodup) (h.mem_iff.mp (mem_of_get? hget))).symm
  | none =>
    cases hother : get? other key with
    | none => rfl
    | some value =>
      have hsome := get?_of_mem nodup (h.mem_iff.mpr (mem_of_get? hother))
      cases hget.symm.trans hsome

theorem erase_sublist (entries : Entries α) (key : String) : (erase entries key).Sublist entries := by
  induction entries with
  | nil => exact .refl _
  | cons e rest ih =>
    unfold erase
    split
    · exact List.sublist_cons_self _ _
    · exact ih.cons_cons _

theorem keys_erase (entries : Entries α) (key : String) :
    keys (erase entries key) = (keys entries).erase key := by
  induction entries with
  | nil => rfl
  | cons e rest ih =>
    by_cases h : e.1 = key
    · simp [erase, keys, h]
    · have hrest : keys (e :: erase rest key) = e.1 :: keys (erase rest key) := rfl
      simp only [erase, if_neg h, hrest, ih]
      simp [keys, h]

theorem nodup_keys_erase {entries : Entries α} (nodup : (keys entries).Nodup) (key : String) :
    (keys (erase entries key)).Nodup := nodup.sublist ((erase_sublist entries key).map Prod.fst)

theorem get?_erase_self {entries : Entries α} (nodup : (keys entries).Nodup) (key : String) :
    get? (erase entries key) key = none := by
  induction entries with
  | nil => rfl
  | cons e rest ih =>
    obtain ⟨first, others⟩ := List.nodup_cons.mp nodup
    rw [erase]
    split
    · next h =>
      cases hget : get? rest key with
      | none => rfl
      | some value => exact absurd (h ▸ List.mem_map_of_mem (mem_of_get? hget)) first
    · next h => rw [get?, if_neg h, ih others]

/-- Filling a gap moves an entry and changes none. -/
theorem eraseFilling_perm (entries : Entries α) (key : String) :
    (eraseFilling entries key).Perm (erase entries key) := by
  induction entries with
  | nil => exact .nil
  | cons e rest ih =>
    rw [eraseFilling, erase]
    split
    · rcases rest.eq_nil_or_concat with rfl | ⟨first, last, rfl⟩
      · exact .nil
      · simpa using (List.perm_append_singleton last first).symm
    · exact ih.cons e

theorem nodup_keys_eraseFilling {entries : Entries α} (nodup : (keys entries).Nodup)
    (key : String) : (keys (eraseFilling entries key)).Nodup :=
  nodup_keys_of_perm (eraseFilling_perm entries key).symm (nodup_keys_erase nodup key)

theorem get?_eraseFilling {entries : Entries α} (nodup : (keys entries).Nodup)
    (key other : String) :
    get? (eraseFilling entries key) other = if other = key then none else get? entries other := by
  rw [get?_of_perm (eraseFilling_perm entries key) (nodup_keys_eraseFilling nodup key)]
  split
  · next h => exact h ▸ get?_erase_self nodup key
  · next h => exact get?_erase_of_ne entries h

/-- What has just been put in does not matter once it is taken out. -/
theorem erase_insert (entries : Entries α) (key : String) (value : α) :
    erase (insert entries key value) key = erase entries key := by
  induction entries with
  | nil => simp [insert, erase]
  | cons e rest ih =>
    by_cases h : e.1 = key
    · simp [insert, erase, h]
    · simp [insert, erase, h, ih]

/-- What is put in last counts. -/
@[simp] theorem insert_insert (entries : Entries α) (key : String) (value last : α) :
    insert (insert entries key value) key last = insert entries key last := by
  induction entries with
  | nil => simp [insert]
  | cons e rest ih =>
    by_cases h : e.1 = key
    · simp [insert, h]
    · simp [insert, h, ih]

/-! ## Changing all values -/

section MapValues

variable (f : α → β) (entries : Entries α) (key : String)

@[simp] theorem length_mapValues : (mapValues f entries).length = entries.length :=
  List.length_map ..

@[simp] theorem get?_mapValues : get? (mapValues f entries) key = (get? entries key).map f := by
  induction entries with
  | nil => rfl
  | cons e rest ih =>
    show (if e.1 = key then some (f e.2) else get? (mapValues f rest) key) = _
    rw [ih, get?]
    split <;> rfl

@[simp] theorem contains_mapValues : contains (mapValues f entries) key = contains entries key := by
  rw [contains, get?_mapValues, Option.isSome_map, contains]

theorem mapValues_insert (value : α) :
    mapValues f (insert entries key value) = insert (mapValues f entries) key (f value) := by
  induction entries with
  | nil => rfl
  | cons e rest ih =>
    show _ = if e.1 = key then (e.1, f value) :: mapValues f rest else
      (e.1, f e.2) :: insert (mapValues f rest) key (f value)
    rw [← ih, insert]
    split <;> rfl

theorem mapValues_modify {change : α → α} {change' : β → β}
    (h : ∀ value, f (change value) = change' (f value)) :
    mapValues f (modify entries key change) = modify (mapValues f entries) key change' := by
  induction entries with
  | nil => rfl
  | cons e rest ih =>
    show _ = if e.1 = key then (e.1, change' (f e.2)) :: mapValues f rest else
      (e.1, f e.2) :: modify (mapValues f rest) key change'
    rw [← ih, ← h, modify]
    split <;> rfl

end MapValues

/-! ## Several names -/

/-- The first value under one of several names. -/
def under (names : List String) (entries : Entries α) : Option α :=
  (entries.find? fun e => names.contains e.1).map Prod.snd

/-- The entries under none of these names, in order. -/
def beside (names : List String) (entries : Entries α) : Entries α :=
  entries.filter fun e => !names.contains e.1

section Several

variable {names : List String} {key : String} {value : α} {entries : Entries α}

theorem under_cons_of_mem (h : key ∈ names) : under names ((key, value) :: entries) = some value := by
  simp [under, h]

theorem under_cons_of_not_mem (h : key ∉ names) :
    under names ((key, value) :: entries) = under names entries := by
  simp [under, h]

theorem under_single (key : String) (entries : Entries α) : under [key] entries = get? entries key := by
  induction entries with
  | nil => rfl
  | cons e rest ih =>
    by_cases h : e.1 = key
    · simp [under, get?, h]
    · rw [get?, if_neg h, ← ih]
      exact under_cons_of_not_mem (by simpa using h)

theorem beside_cons_of_mem (h : key ∈ names) :
    beside names ((key, value) :: entries) = beside names entries := by
  simp [beside, h]

theorem beside_cons_of_not_mem (h : key ∉ names) :
    beside names ((key, value) :: entries) = (key, value) :: beside names entries := by
  simp [beside, h]

theorem beside_append (names : List String) (entries more : Entries α) :
    beside names (entries ++ more) = beside names entries ++ beside names more :=
  List.filter_append ..

theorem nodup_keys_beside (nodup : (keys entries).Nodup) : (keys (beside names entries)).Nodup :=
  nodup.sublist (List.filter_sublist.map Prod.fst)

theorem beside_eq_self (h : ∀ key ∈ keys entries, key ∉ names) : beside names entries = entries :=
  List.filter_eq_self.mpr fun e he => by simpa using h e.1 (List.mem_map_of_mem he)

end Several

end Entries

end WorkflowCompiler
