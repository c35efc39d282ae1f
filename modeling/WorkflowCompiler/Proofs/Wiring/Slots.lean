import WorkflowCompiler.Wiring.Paths

/-!
# Links in slots

What each operation does to the placed links of a wiring. Removing takes links away and leaves all
others where they are; adding puts one link into a slot that was empty.
-/
namespace WorkflowCompiler

namespace Wiring

/-- The links in slots that are numbered from `k` on. -/
def placedFrom (k : Nat) (slots : List (Option Link)) : List PlacedLink :=
  (slots.zipIdx k).filterMap fun (link, slot) => link.map (PlacedLink.mk slot)

theorem placed_eq (w : Wiring) : w.placed = placedFrom 0 w.slots := rfl

@[simp] theorem placedFrom_nil (k : Nat) : placedFrom k [] = [] := rfl

@[simp] theorem placedFrom_none (k : Nat) (slots : List (Option Link)) :
    placedFrom k (none :: slots) = placedFrom (k + 1) slots := rfl

@[simp] theorem placedFrom_some (k : Nat) (link : Link) (slots : List (Option Link)) :
    placedFrom k (some link :: slots) = ⟨k, link⟩ :: placedFrom (k + 1) slots := rfl

theorem placedFrom_append (k : Nat) (slots more : List (Option Link)) :
    placedFrom k (slots ++ more) = placedFrom k slots ++ placedFrom (k + slots.length) more := by
  simp [placedFrom, List.zipIdx_append]

theorem le_slot_of_mem_placedFrom {k : Nat} {slots : List (Option Link)} {p : PlacedLink}
    (h : p ∈ placedFrom k slots) : k ≤ p.slot := by
  induction slots generalizing k with
  | nil => simp at h
  | cons slot slots ih =>
    cases slot with
    | none => exact Nat.le_of_succ_le (ih (by simpa using h))
    | some link =>
      rcases List.mem_cons.mp (by simpa using h) with rfl | h
      · exact Nat.le_refl _
      · exact Nat.le_of_succ_le (ih h)

theorem mem_placed {w : Wiring} {p : PlacedLink} :
    p ∈ w.placed ↔ w.slots[p.slot]? = some (some p.link) := by
  unfold placed
  rw [List.mem_filterMap]
  constructor
  · rintro ⟨⟨link, slot⟩, hm, hp⟩
    obtain ⟨l, rfl, rfl⟩ := Option.map_eq_some_iff.mp hp
    exact List.mem_zipIdx_iff_getElem?.mp hm
  · intro h
    exact ⟨(some p.link, p.slot), List.mem_zipIdx_iff_getElem?.mpr h, rfl⟩

theorem eq_of_slot_eq {w : Wiring} {p q : PlacedLink} (hp : p ∈ w.placed) (hq : q ∈ w.placed)
    (h : p.slot = q.slot) : p = q := by
  have hpq : some (some p.link) = some (some q.link) := by
    rw [← mem_placed.mp hp, ← mem_placed.mp hq, h]
  obtain ⟨slot, link⟩ := p
  obtain ⟨slot', link'⟩ := q
  simp_all

theorem mem_outgoing {w : Wiring} {id : String} {p : PlacedLink} :
    p ∈ w.outgoing id ↔ p ∈ w.placed ∧ p.link.source = id := by
  simp [outgoing]

theorem mem_incoming {w : Wiring} {id : String} {p : PlacedLink} :
    p ∈ w.incoming id ↔ p ∈ w.placed ∧ p.link.target = id := by
  simp [incoming]

/-! ## Removing -/

theorem placedFrom_set_none (k i : Nat) (slots : List (Option Link)) :
    placedFrom k (slots.set i none) = (placedFrom k slots).filter fun p => p.slot ≠ k + i := by
  induction slots generalizing k i with
  | nil => rfl
  | cons slot slots ih =>
    have rest : ∀ p ∈ placedFrom (k + 1) slots, p.slot ≠ k := by
      intro p hp he
      have := le_slot_of_mem_placedFrom hp
      omega
    cases i with
    | zero =>
      have hall : (placedFrom (k + 1) slots).filter (fun p => p.slot ≠ k) =
          placedFrom (k + 1) slots :=
        List.filter_eq_self.mpr fun p hp => by simpa using rest p hp
      cases slot with
      | none => simpa using hall.symm
      | some link => simpa using hall.symm
    | succ i =>
      have hk : k + (i + 1) = k + 1 + i := by omega
      rw [List.set_cons_succ, hk]
      cases slot with
      | none => simpa using ih (k + 1) i
      | some link =>
        have hne : k ≠ k + 1 + i := by omega
        simpa [hne] using ih (k + 1) i

theorem placed_removeLink (w : Wiring) (i : Nat) :
    (w.removeLink i).placed = w.placed.filter fun p => p.slot ≠ i := by
  unfold removeLink
  split
  · simpa [placed_eq] using placedFrom_set_none 0 i w.slots
  · next h =>
    refine (List.filter_eq_self.mpr fun p hp => ?_).symm
    have hs := mem_placed.mp hp
    have hne : p.slot ≠ i := by
      rintro rfl
      exact h p.link hs
    simpa using hne

@[simp] theorem nodes_removeLink (w : Wiring) (i : Nat) : (w.removeLink i).nodes = w.nodes := by
  unfold removeLink
  split <;> rfl

@[simp] theorem nodes_removeLinks (w : Wiring) (is : List Nat) :
    (is.foldl removeLink w).nodes = w.nodes := by
  induction is generalizing w with
  | nil => rfl
  | cons i is ih => rw [List.foldl_cons, ih, nodes_removeLink]

/-- Removing the links in some slots leaves exactly the links in all others. -/
theorem placed_removeLinks (w : Wiring) (is : List Nat) :
    (is.foldl removeLink w).placed = w.placed.filter fun p => p.slot ∉ is := by
  induction is generalizing w with
  | nil => exact (List.filter_eq_self.mpr fun p _ => by simp).symm
  | cons i is ih =>
    rw [List.foldl_cons, ih, placed_removeLink, List.filter_filter]
    refine List.filter_congr fun p _ => ?_
    by_cases h : p.slot = i <;> simp [h]

theorem mem_newestFirst {links : List PlacedLink} {p : PlacedLink} :
    p ∈ newestFirst links ↔ p ∈ links :=
  (List.mergeSort_perm links _).mem_iff

/-- Removing the links of a sublist, told by their slots, leaves exactly the others. -/
theorem placed_removeThese {w : Wiring} {these : List PlacedLink} (h : ∀ p ∈ these, p ∈ w.placed) :
    (these.foldl (fun w p => w.removeLink p.slot) w).placed = w.placed.filter (· ∉ these) := by
  have hmap : these.foldl (fun w p => w.removeLink p.slot) w =
      (these.map PlacedLink.slot).foldl removeLink w := by rw [List.foldl_map]
  rw [hmap, placed_removeLinks]
  refine List.filter_congr fun p hp => ?_
  have hiff : p.slot ∈ these.map PlacedLink.slot ↔ p ∈ these := by
    rw [List.mem_map]
    constructor
    · rintro ⟨q, hq, he⟩
      exact eq_of_slot_eq (h q hq) hp he ▸ hq
    · exact fun hp => ⟨p, hp, rfl⟩
  simp [hiff]

theorem nodes_removeThese (w : Wiring) (these : List PlacedLink) :
    (these.foldl (fun w p => w.removeLink p.slot) w).nodes = w.nodes := by
  have hmap : these.foldl (fun w p => w.removeLink p.slot) w =
      (these.map PlacedLink.slot).foldl removeLink w := by rw [List.foldl_map]
  rw [hmap, nodes_removeLinks]

@[simp] theorem nodes_removeNode (w : Wiring) (id : String) :
    (w.removeNode id).nodes = w.nodes.erase id := by
  simp only [removeNode, nodes_removeThese]

/-- Removing a node takes exactly the links away that leave it or enter it. -/
theorem placed_removeNode (w : Wiring) (id : String) :
    (w.removeNode id).placed =
      w.placed.filter fun p => p.link.source ≠ id ∧ p.link.target ≠ id := by
  let w' := (newestFirst (w.outgoing id)).foldl (fun w p => w.removeLink p.slot) w
  let w'' := (newestFirst (w'.incoming id)).foldl (fun w p => w.removeLink p.slot) w'
  have hout : w'.placed = w.placed.filter fun p => p.link.source ≠ id := by
    refine (placed_removeThese fun p hp => (mem_outgoing.mp (mem_newestFirst.mp hp)).1).trans ?_
    refine List.filter_congr fun p hp => ?_
    simp [mem_newestFirst, mem_outgoing, hp]
  have hin : w''.placed = w'.placed.filter fun p => p.link.target ≠ id := by
    refine (placed_removeThese fun p hp => (mem_incoming.mp (mem_newestFirst.mp hp)).1).trans ?_
    refine List.filter_congr fun p hp => ?_
    simp [mem_newestFirst, mem_incoming, hp]
  show w''.placed = _
  rw [hin, hout, List.filter_filter]
  refine List.filter_congr fun p _ => ?_
  simp [Bool.and_comm]

/-- Removing nodes takes exactly the links away that touch one of them. -/
theorem placed_removeNodes (w : Wiring) (ids : List String) :
    (ids.foldl removeNode w).placed =
      w.placed.filter fun p => p.link.source ∉ ids ∧ p.link.target ∉ ids := by
  induction ids generalizing w with
  | nil => exact (List.filter_eq_self.mpr fun p _ => by simp).symm
  | cons id ids ih =>
    rw [List.foldl_cons, ih, placed_removeNode, List.filter_filter]
    refine List.filter_congr fun p _ => ?_
    by_cases hs : p.link.source = id <;> by_cases ht : p.link.target = id <;> simp [hs, ht]

/-! ## Adding -/

theorem placedFrom_set_some (k i : Nat) (slots : List (Option Link)) (link : Link)
    (h : slots[i]? = some none) :
    ((placedFrom k (slots.set i (some link))).Perm (⟨k + i, link⟩ :: placedFrom k slots)) := by
  induction slots generalizing k i with
  | nil => simp at h
  | cons slot slots ih =>
    cases i with
    | zero =>
      obtain rfl : slot = none := by simpa using h
      exact .refl _
    | succ i =>
      have hk : k + (i + 1) = k + 1 + i := by omega
      have hi := ih (k + 1) i (by simpa using h)
      rw [List.set_cons_succ, hk]
      cases slot with
      | none => exact hi
      | some l => exact (hi.cons _).trans (.swap _ _ _)

/-- The slot that the next link takes. -/
def nextSlot (w : Wiring) : Nat := w.free.headD w.slots.length

/-- A wiring whose links join present nodes and whose free slots are empty. -/
structure Valid (w : Wiring) : Prop where
  nodup : w.nodes.Nodup
  source : ∀ p ∈ w.placed, p.link.source ∈ w.nodes
  target : ∀ p ∈ w.placed, p.link.target ∈ w.nodes
  free : ∀ i ∈ w.free, w.slots[i]? = some none
  free_nodup : w.free.Nodup

@[simp] theorem nodes_place (w : Wiring) (source target : String) (data : LinkData) :
    (w.place source target data).nodes = w.nodes := by
  unfold place
  cases w.free <;> rfl

/-- A new link stands beside all links that were there. -/
theorem Valid.placed_place {w : Wiring} (v : w.Valid) (source target : String) (data : LinkData) :
    (w.place source target data).placed.Perm
      (⟨w.nextSlot, ⟨source, target, data, w.clock⟩⟩ :: w.placed) := by
  cases hf : w.free with
  | nil =>
    have hp : (w.place source target data).placed =
        w.placed ++ [⟨w.slots.length, ⟨source, target, data, w.clock⟩⟩] := by
      simp [place, hf, placed_eq, placedFrom_append]
    rw [hp]
    simp [nextSlot, hf, List.perm_append_singleton]
  | cons slot free =>
    have hs : w.slots[slot]? = some none := v.free slot (by simp [hf])
    simpa [place, hf, placed_eq, nextSlot] using
      placedFrom_set_some 0 slot w.slots ⟨source, target, data, w.clock⟩ hs

/-! ## Staying valid -/

theorem valid_empty : Valid {} := by
  constructor <;> simp [placed_eq]

theorem Valid.addNode {w : Wiring} (v : w.Valid) (id : String) : (w.addNode id).Valid := by
  unfold Wiring.addNode
  split
  · exact v
  · next h =>
    have hid : id ∉ w.nodes := by simpa [contains] using h
    refine ⟨?_, fun p hp => ?_, fun p hp => ?_, v.free, v.free_nodup⟩
    · refine List.nodup_append.mpr ⟨v.nodup, by simp, ?_⟩
      intro a ha b hb
      rw [List.mem_singleton] at hb
      exact fun he => hid (hb ▸ he ▸ ha)
    · exact List.mem_append_left _ (v.source p hp)
    · exact List.mem_append_left _ (v.target p hp)

theorem Valid.place {w : Wiring} (v : w.Valid) {source target : String} (data : LinkData)
    (hs : source ∈ w.nodes) (ht : target ∈ w.nodes) : (w.place source target data).Valid := by
  have perm := v.placed_place source target data
  refine ⟨by simpa using v.nodup, fun p hp => ?_, fun p hp => ?_, fun i hi => ?_, ?_⟩
  · rcases List.mem_cons.mp (perm.mem_iff.mp hp) with rfl | hp
    · simpa using hs
    · simpa using v.source p hp
  · rcases List.mem_cons.mp (perm.mem_iff.mp hp) with rfl | hp
    · simpa using ht
    · simpa using v.target p hp
  · cases hf : w.free with
    | nil => simp [Wiring.place, hf] at hi
    | cons slot free =>
      have hi : i ∈ free := by simpa [Wiring.place, hf] using hi
      have hn := List.nodup_cons.mp (hf ▸ v.free_nodup)
      have hne : slot ≠ i := fun he => hn.1 (he ▸ hi)
      have hv := v.free i (by simp [hf, hi])
      simpa [Wiring.place, hf, List.getElem?_set, hne] using hv
  · cases hf : w.free with
    | nil => simp [Wiring.place, hf]
    | cons slot free =>
      simpa [Wiring.place, hf] using (List.nodup_cons.mp (hf ▸ v.free_nodup)).2

theorem Valid.addLink {w : Wiring} (v : w.Valid) (source target : String) (data : LinkData) :
    (w.addLink source target data).Valid := by
  have mem : ∀ (w : Wiring) (id : String), id ∈ (w.addNode id).nodes := by
    intro w id
    unfold Wiring.addNode
    split
    · next h => simpa [contains] using h
    · simp
  have grows : ∀ (w : Wiring) (id other : String), id ∈ w.nodes → id ∈ (w.addNode other).nodes := by
    intro w id other h
    unfold Wiring.addNode
    split
    · exact h
    · exact List.mem_append_left _ h
  exact ((v.addNode source).addNode target).place data (grows _ _ _ (mem w source)) (mem _ target)

theorem Valid.removeLink {w : Wiring} (v : w.Valid) (i : Nat) : (w.removeLink i).Valid := by
  have mem : ∀ p ∈ (w.removeLink i).placed, p ∈ w.placed := fun p hp =>
    (List.mem_filter.mp (placed_removeLink w i ▸ hp)).1
  have free : (∀ j ∈ (w.removeLink i).free, (w.removeLink i).slots[j]? = some none) ∧
      (w.removeLink i).free.Nodup := by
    unfold Wiring.removeLink
    split
    · next l hl =>
      have hlt : i < w.slots.length := (List.getElem?_eq_some_iff.mp hl).1
      refine ⟨fun j hj => ?_, List.nodup_cons.mpr ⟨fun hi => ?_, v.free_nodup⟩⟩
      · by_cases he : i = j
        · subst he
          simp [hlt]
        · have hj : j ∈ w.free := (List.mem_cons.mp hj).resolve_left (Ne.symm he)
          simpa [List.getElem?_set, he] using v.free j hj
      · rw [v.free i hi] at hl
        cases hl
    · exact ⟨v.free, v.free_nodup⟩
  exact ⟨by simpa using v.nodup, fun p hp => by simpa using v.source p (mem p hp),
    fun p hp => by simpa using v.target p (mem p hp), free.1, free.2⟩

theorem Valid.removeLinks {w : Wiring} (v : w.Valid) (is : List Nat) :
    (is.foldl Wiring.removeLink w).Valid := by
  induction is generalizing w with
  | nil => exact v
  | cons i is ih => exact ih (v.removeLink i)

theorem Valid.removeThese {w : Wiring} (v : w.Valid) (these : List PlacedLink) :
    (these.foldl (fun w p => w.removeLink p.slot) w).Valid := by
  induction these generalizing w with
  | nil => exact v
  | cons p these ih => exact ih (v.removeLink p.slot)

theorem Valid.removeNode {w : Wiring} (v : w.Valid) (id : String) : (w.removeNode id).Valid := by
  let w' := (newestFirst (w.outgoing id)).foldl (fun w p => w.removeLink p.slot) w
  have u := (v.removeThese (newestFirst (w.outgoing id))).removeThese (newestFirst (w'.incoming id))
  have stays : ∀ {x : String}, x ∈ w.nodes → x ≠ id → x ∈ (w.removeNode id).nodes := by
    intro x hx hne
    rw [nodes_removeNode]
    exact (List.mem_erase_of_ne hne).mpr hx
  refine ⟨nodes_removeNode w id ▸ v.nodup.erase id, fun p hp => ?_, fun p hp => ?_, u.free,
    u.free_nodup⟩
  all_goals
    obtain ⟨hp, hne⟩ := List.mem_filter.mp (placed_removeNode w id ▸ hp)
    simp only [decide_eq_true_eq] at hne
  · exact stays (v.source p hp) hne.1
  · exact stays (v.target p hp) hne.2

theorem Valid.removeNodes {w : Wiring} (v : w.Valid) (ids : List String) :
    (ids.foldl Wiring.removeNode w).Valid := by
  induction ids generalizing w with
  | nil => exact v
  | cons id ids ih => exact ih (v.removeNode id)

theorem Valid.nodes_removeNodes {w : Wiring} (v : w.Valid) (ids : List String) :
    (ids.foldl Wiring.removeNode w).nodes = w.nodes.filter (· ∉ ids) := by
  induction ids generalizing w with
  | nil => exact (List.filter_eq_self.mpr fun p _ => by simp).symm
  | cons id ids ih =>
    rw [List.foldl_cons, ih (v.removeNode id), nodes_removeNode, v.nodup.erase_eq_filter,
      List.filter_filter]
    refine List.filter_congr fun x _ => ?_
    by_cases h : x = id <;> simp [h]

end Wiring

end WorkflowCompiler
