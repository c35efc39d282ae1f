import WorkflowCompiler.Proofs.Wiring.Calls
import WorkflowCompiler.Proofs.Wiring.Handing
import WorkflowCompiler.Proofs.Wiring.Slabs

/-!
# Wirings by number

How a wiring is kept: ids stand in numbered places and wires between places in numbered slots, and
a table of its own tells the place of each id. Places and slots that were vacated are taken again,
so a number means something only while what it was given out for is there. Each operation checks
all numbers that it uses and comes to nothing when one of them stands for nothing; none ever does,
as long as the table and the places agree.
-/
namespace WorkflowCompiler

/-- A connection between two places. -/
structure Wire where
  source : Nat
  target : Nat
  data : LinkData
  stamp : Nat
  deriving DecidableEq, Repr

/-- The link that a wire is when its places have names. -/
def Wire.named (name : Nat → String) (wire : Wire) : Link :=
  ⟨name wire.source, name wire.target, wire.data, wire.stamp⟩

/-- A directed graph with ids in places and wires in slots. -/
structure Numbered where
  places : Slab String := {}
  wires : Slab Wire := {}
  /-- The stamp of the next wire. -/
  clock : Nat := 0
  /-- The place of each id, in the order in which the ids came. -/
  table : Entries Nat := []
  deriving DecidableEq, Repr

namespace Numbered

/-! ## Operations -/

def ids (g : Numbered) : List String := g.table.keys

def contains (g : Numbered) (id : String) : Bool := g.table.contains id

def nodeCount (g : Numbered) : Nat := g.places.count

def linkCount (g : Numbered) : Nat := g.wires.count

/-- The wires with their slots, in the order of the slots. -/
def placed (g : Numbered) : List (Nat × Wire) :=
  g.wires.cells.zipIdx.filterMap fun (wire, slot) => wire.map (slot, ·)

/-- Adds an id unless it is there; also tells its place. -/
def addNode (g : Numbered) (id : String) : Numbered × Nat :=
  match g.table.get? id with
  | some i => (g, i)
  | none =>
    ({ g with places := g.places.put id, table := g.table.insert id g.places.next }, g.places.next)

/-- Adds a wire between two places. -/
def addWire? (g : Numbered) (i j : Nat) (data : LinkData) : Option Numbered := do
  let _ ← g.places.get? i
  let _ ← g.places.get? j
  return { g with wires := g.wires.put ⟨i, j, data, g.clock⟩, clock := g.clock + 1 }

/-- Adds a link, and its ends unless they are there. -/
def addLink? (g : Numbered) (source target : String) (data : LinkData) : Option Numbered :=
  let (g, i) := g.addNode source
  let (g, j) := g.addNode target
  g.addWire? i j data

/-- Takes the wire out of a slot. -/
def removeWire? (g : Numbered) (slot : Nat) : Option Numbered :=
  (g.wires.take? slot).map fun wires => { g with wires }

/-- The wires that leave a place, in the order of their slots. -/
def wiresFrom? (g : Numbered) (i : Nat) : Option (List (Nat × Wire)) :=
  (g.places.get? i).map fun _ => g.placed.filter fun p => p.2.source = i

/-- The wires that enter a place, in the order of their slots. -/
def wiresInto? (g : Numbered) (i : Nat) : Option (List (Nat × Wire)) :=
  (g.places.get? i).map fun _ => g.placed.filter fun p => p.2.target = i

/-- What enters an id: the ids that the links come from, with what is known of the links. -/
def incoming? (g : Numbered) (id : String) :
    Option (Except CompileError (List (String × LinkData))) :=
  match g.table.get? id with
  | none => some (.error (Wiring.missing id))
  | some i => do
    let entering ← g.wiresInto? i
    let named ← entering.mapM fun p => (g.places.get? p.2.source).map (·, p.2.data)
    return .ok named

/-- The slots of wires by stamp, the newest first. -/
def newestFirst (wires : List (Nat × Wire)) : List Nat :=
  (wires.mergeSort fun p q => q.2.stamp ≤ p.2.stamp).map Prod.fst

/-- Vacates a place: the wires that leave it go, then those that enter it, then its id. -/
def vacate? (g : Numbered) (i : Nat) : Option Numbered := do
  let leaving ← g.wiresFrom? i
  let g ← (newestFirst leaving).foldlM removeWire? g
  let entering ← g.wiresInto? i
  let g ← (newestFirst entering).foldlM removeWire? g
  let places ← g.places.take? i
  return { g with places }

/-- Takes an id out of the table. -/
def forget (g : Numbered) (id : String) : Numbered := { g with table := g.table.erase id }

/-- Vacates a place and forgets the id that stood there. -/
def drop? (g : Numbered) (i : Nat) : Option Numbered := do
  let id ← g.places.get? i
  let g ← g.vacate? i
  return g.forget id

/-- All paths from one place to another that avoid `visited` and have at most that many wires, each
as the slots of its wires. -/
def pathsFrom? (g : Numbered) (stop : Nat) :
    Nat → (here : Nat) → (visited : List Nat) → Option (List (List Nat))
  | n, here, visited =>
    if here = stop then some [[]]
    else
      match n with
      | 0 => some []
      | n + 1 => do
        let leaving ← g.wiresFrom? here
        let found ← leaving.mapM fun p =>
          if visited.contains p.2.target then some []
          else (pathsFrom? g stop n p.2.target (p.2.target :: visited)).map fun paths =>
            paths.map (p.1 :: ·)
        return found.flatten

/-- All simple paths from one place to another. -/
def paths? (g : Numbered) (start stop : Nat) : Option (List (List Nat)) :=
  g.pathsFrom? stop g.nodeCount start [start]

/-- The place that the wire in a slot ends in. -/
def target? (g : Numbered) (slot : Nat) : Option Nat := (g.wires.get? slot).map Wire.target

/-- Wires a place to another, unless the two are already wired in this way; keys do not count. -/
def relink? (start : Nat) (g : Numbered) (link : Nat × LinkData) : Option Numbered := do
  let leaving ← g.wiresFrom? start
  if leaving.any fun p =>
      p.2.target = link.1 && p.2.data.formatter = link.2.formatter &&
        p.2.data.targetHandle = link.2.targetHandle then
    return g
  else g.addWire? start link.1 link.2

/-- Folds the region that some paths between two places cross into the first. The slots and the
places that go are read off before anything is taken out. -/
def fold? (g : Numbered) (start stop : Nat) (last : String) (paths : List (List Nat)) :
    Option Numbered := do
  let targets ← paths.flatten.mapM g.target?
  let g ← (Wiring.appendNew [] paths.flatten).foldlM removeWire? g
  let g ← (Wiring.appendNew [] (targets.filter (· ≠ stop))).foldlM drop? g
  let leaving ← g.wiresFrom? stop
  let g ← (leaving.map fun p => (p.2.target, p.2.data)).foldlM (relink? start) g
  let g ← g.vacate? stop
  return g.forget last

/-- Folds the region between two ids into the first. -/
def compress? (g : Numbered) (start stop : String) :
    Option (Except CompileError Unit × Numbered) :=
  match g.table.get? start, g.table.get? stop with
  | none, _ => some (.error (Wiring.missing start), g)
  | some _, none => some (.error (Wiring.missing stop), g)
  | some i, some j => do
    let paths ← g.paths? i j
    if paths = [] then return (.error (.unmatchedAggregator stop), g)
    else (g.fold? i j stop paths).map (.ok (), ·)

/-- What a call comes to, and the wiring after it. -/
def call? (g : Numbered) : Call → Option (Except CompileError Unit × Numbered)
  | .addNode id => some (.ok (), (g.addNode id).1)
  | .addLink source target data => (g.addLink? source target data).map (.ok (), ·)
  | .compress start stop => g.compress? start stop

/-- What calls come to one after the other, and the wiring after the last one. -/
def calls? (g : Numbered) : List Call → Option (List (Except CompileError Unit) × Numbered)
  | [] => some ([], g)
  | c :: cs => do
    let (result, g) ← g.call? c
    let (results, g) ← g.calls? cs
    return (result :: results, g)

/-! ## What the numbers stand for -/

/-- The id in a place. -/
def name (g : Numbered) (i : Nat) : String := (g.places.get? i).getD ""

/-- The wiring that is kept by number. -/
def wiring (g : Numbered) : Wiring :=
  let links := g.wires.map (Wire.named g.name)
  ⟨g.ids, links.cells, links.free, g.clock⟩

/-- Whether some id stands in a place. -/
def Taken (g : Numbered) (i : Nat) : Prop := ∃ id, g.places.get? i = some id

/-- Whether the table and the places agree and all wires join places that are taken. -/
structure Sound (g : Numbered) : Prop where
  places : g.places.Valid
  wires : g.wires.Valid
  table : ∀ id i, g.table.get? id = some i ↔ g.places.get? i = some id
  nodup : g.ids.Nodup
  counted : g.ids.length = g.nodeCount
  joins : ∀ k wire, g.wires.get? k = some wire → g.Taken wire.source ∧ g.Taken wire.target

theorem sound_empty : Sound {} where
  places := Slab.valid_empty
  wires := Slab.valid_empty
  table := by simp [Slab.get?]
  nodup := List.nodup_nil
  counted := rfl
  joins := by simp [Slab.get?]

/-- The placed link that a wire in a slot is when its places have names. -/
def link (name : Nat → String) (p : Nat × Wire) : PlacedLink := ⟨p.1, p.2.named name⟩

section Reading

variable {g : Numbered} {i j : Nat} {id : String}

theorem name_of_get? (h : g.places.get? i = some id) : g.name i = id := by simp [name, h]

theorem mem_placed {p : Nat × Wire} : p ∈ g.placed ↔ g.wires.get? p.1 = some p.2 := by
  unfold placed
  rw [List.mem_filterMap, Slab.get?_eq_some]
  constructor
  · rintro ⟨⟨wire, slot⟩, hm, hp⟩
    obtain ⟨l, rfl, rfl⟩ := Option.map_eq_some_iff.mp hp
    exact List.mem_zipIdx_iff_getElem?.mp hm
  · intro h
    exact ⟨(some p.2, p.1), List.mem_zipIdx_iff_getElem?.mpr h, rfl⟩

theorem placed_wiring (g : Numbered) : g.wiring.placed = g.placed.map (link g.name) := by
  unfold Wiring.placed placed wiring Slab.map
  dsimp only
  rw [List.zipIdx_map, List.filterMap_map, List.map_filterMap]
  refine List.filterMap_congr fun p _ => ?_
  rcases p with ⟨_ | wire, slot⟩ <;> rfl

theorem Sound.mem_ids (s : g.Sound) : id ∈ g.ids ↔ ∃ i, g.places.get? i = some id := by
  simp only [← s.table]
  rw [ids, ← Entries.contains_iff]
  exact Option.isSome_iff_exists

theorem Sound.places_inj (s : g.Sound) {a b : String} (hi : g.places.get? i = some a)
    (hj : g.places.get? j = some b) : i = j ↔ a = b := by
  constructor
  · rintro rfl
    exact Option.some.inj (hi.symm.trans hj)
  · rintro rfl
    exact Option.some.inj (((s.table a i).mpr hi).symm.trans ((s.table a j).mpr hj))

theorem Sound.name_inj (s : g.Sound) (hi : g.Taken i) (hj : g.Taken j)
    (h : g.name i = g.name j) : i = j := by
  obtain ⟨a, hi⟩ := hi
  obtain ⟨b, hj⟩ := hj
  exact (s.places_inj hi hj).mpr (by rw [← name_of_get? hi, ← name_of_get? hj, h])

theorem Sound.taken_of_placed (s : g.Sound) {p : Nat × Wire} (hp : p ∈ g.placed) :
    g.Taken p.2.source ∧ g.Taken p.2.target := s.joins p.1 p.2 (mem_placed.mp hp)

/-- The wires with an end in a place are the links with that end at the id that stands there. -/
theorem Sound.map_link_filter (s : g.Sound) (h : g.places.get? i = some id) {place : Wire → Nat}
    {node : Link → String} (same : ∀ wire : Wire, node (wire.named g.name) = g.name (place wire))
    (taken : ∀ p ∈ g.placed, g.Taken (place p.2)) :
    (g.placed.filter fun p => place p.2 = i).map (link g.name) =
      g.wiring.placed.filter fun p => node p.link = id := by
  rw [placed_wiring, List.filter_map]
  congr 1
  refine List.filter_congr fun p hp => decide_eq_decide.mpr ?_
  show place p.2 = i ↔ node (p.2.named g.name) = id
  rw [same, ← name_of_get? h]
  exact ⟨congrArg g.name, s.name_inj (taken p hp) ⟨id, h⟩⟩

theorem Sound.wiresFrom (s : g.Sound) (h : g.places.get? i = some id) :
    ∃ leaving, g.wiresFrom? i = some leaving ∧ leaving.Sublist g.placed ∧
      (∀ p, p ∈ leaving ↔ p ∈ g.placed ∧ p.2.source = i) ∧
      leaving.map (link g.name) = g.wiring.outgoing id :=
  ⟨g.placed.filter fun p => p.2.source = i, by simp [wiresFrom?, h], List.filter_sublist, by simp,
    s.map_link_filter h (fun _ => rfl) fun _ hp => (s.taken_of_placed hp).1⟩

theorem Sound.wiresInto (s : g.Sound) (h : g.places.get? i = some id) :
    ∃ entering, g.wiresInto? i = some entering ∧ entering.Sublist g.placed ∧
      (∀ p, p ∈ entering ↔ p ∈ g.placed ∧ p.2.target = i) ∧
      entering.map (link g.name) = g.wiring.incoming id :=
  ⟨g.placed.filter fun p => p.2.target = i, by simp [wiresInto?, h], List.filter_sublist, by simp,
    s.map_link_filter h (fun _ => rfl) fun _ hp => (s.taken_of_placed hp).2⟩

/-- What enters an id is never asked of a number that stands for nothing. -/
theorem Sound.incoming (s : g.Sound) (h : id ∈ g.ids) :
    g.incoming? id =
      some (.ok ((g.wiring.incoming id).map fun p => (p.link.source, p.link.data))) := by
  obtain ⟨i, hi⟩ := s.mem_ids.mp h
  obtain ⟨entering, hinto, hsub, -, hlinks⟩ := s.wiresInto hi
  have hnamed : entering.mapM (fun p => (g.places.get? p.2.source).map (·, p.2.data)) =
      some (entering.map fun p => (g.name p.2.source, p.2.data)) := by
    rw [mapM_congr (g := fun p => pure (g.name p.2.source, p.2.data)), List.mapM_pure]
    · rfl
    · intro p hp
      obtain ⟨source, hsource⟩ := (s.taken_of_placed (hsub.subset hp)).1
      rw [hsource, name_of_get? hsource]
      rfl
  unfold incoming?
  rw [(s.table id i).mpr hi]
  dsimp only
  rw [hinto, Option.bind_eq_bind, Option.bind_some, hnamed, ← hlinks, List.map_map]
  rfl

end Reading

/-! ## Slots -/

/-- What is left when the wires in some slots have been taken out. -/
structure Loses (g : Numbered) (slots : List Nat) (g' : Numbered) : Prop where
  sound : g'.Sound
  wiring : g'.wiring = slots.foldl Wiring.removeLink g.wiring
  places : g'.places = g.places
  wires : ∀ k, g'.wires.get? k = if k ∈ slots then none else g.wires.get? k

variable {g : Numbered}

theorem Sound.removeWire (s : g.Sound) {k : Nat} {wire : Wire} (h : g.wires.get? k = some wire) :
    ∃ g', g.removeWire? k = some g' ∧ g.Loses [k] g' := by
  have taken := Slab.take?_eq h
  have wires := Slab.get?_take h taken
  let g' : Numbered := { g with wires := ⟨g.wires.cells.set k none, k :: g.wires.free⟩ }
  refine ⟨g', by rw [removeWire?, taken]; rfl, ⟨s.places, s.wires.take h taken, s.table, s.nodup,
    s.counted, fun j other hj => ?_⟩, ?_, rfl, by simpa using wires⟩
  · have hj := (wires j).symm.trans hj
    split at hj
    · cases hj
    · exact s.joins j other hj
  · have hlink : g.wiring.slots[k]? = some (some (wire.named g.name)) := by
      have hmap := Slab.get?_map (Wire.named g.name) g.wires k
      rw [h] at hmap
      exact Slab.get?_eq_some.mp hmap
    simp only [List.foldl_cons, List.foldl_nil, Wiring.removeLink, hlink]
    simp only [g', wiring, Slab.map, List.map_set]
    rfl

/-- Taking wires out of slots, none of them twice. -/
theorem Sound.removeWires (s : g.Sound) {slots : List Nat} (nodup : slots.Nodup)
    (there : ∀ k ∈ slots, ∃ wire, g.wires.get? k = some wire) :
    ∃ g', slots.foldlM removeWire? g = some g' ∧ g.Loses slots g' := by
  induction slots generalizing g with
  | nil => exact ⟨g, rfl, s, rfl, rfl, by simp⟩
  | cons k slots ih =>
    obtain ⟨hk, nodup⟩ := List.nodup_cons.mp nodup
    obtain ⟨⟨wire, hwire⟩, there⟩ := List.forall_mem_cons.mp there
    obtain ⟨g₁, hfirst, one⟩ := s.removeWire hwire
    have there₁ : ∀ j ∈ slots, ∃ wire, g₁.wires.get? j = some wire := by
      intro j hj
      have hne : j ∉ [k] := by simpa using fun he : j = k => hk (he ▸ hj)
      rw [one.wires, if_neg hne]
      exact there j hj
    obtain ⟨g', hrest, all⟩ := ih one.sound nodup there₁
    refine ⟨g', by rw [List.foldlM_cons, hfirst]; exact hrest, all.sound, ?_,
      all.places.trans one.places, fun j => ?_⟩
    · rw [all.wiring, one.wiring]
      rfl
    · rw [all.wires, one.wires]
      by_cases he : j = k <;> by_cases hj : j ∈ slots <;> simp [he, hj, hk]

/-- A link is placed as the slots are filled. -/
theorem place_eq (w : Wiring) (source target : String) (data : LinkData) :
    let links := (Slab.mk w.slots w.free).put ⟨source, target, data, w.clock⟩
    w.place source target data = ⟨w.nodes, links.cells, links.free, w.clock + 1⟩ := by
  unfold Wiring.place Slab.put
  cases w.free <;> rfl

theorem Sound.addWire (s : g.Sound) {i j : Nat} {a b : String} (hi : g.places.get? i = some a)
    (hj : g.places.get? j = some b) (data : LinkData) :
    ∃ g', g.addWire? i j data = some g' ∧ g'.Sound ∧ g'.wiring = g.wiring.place a b data ∧
      g'.places = g.places := by
  let wire : Wire := ⟨i, j, data, g.clock⟩
  let g' : Numbered := { g with wires := g.wires.put wire, clock := g.clock + 1 }
  refine ⟨g', by simp [addWire?, hi, hj, g', wire], ⟨s.places, s.wires.put wire, s.table, s.nodup,
    s.counted, fun k other hk => ?_⟩, ?_, rfl⟩
  · have hk := (s.wires.get?_put wire k).symm.trans hk
    split at hk
    · obtain rfl := Option.some.inj hk
      exact ⟨⟨a, hi⟩, ⟨b, hj⟩⟩
    · exact s.joins k other hk
  · have hlinks : g'.wires.map (Wire.named g'.name) =
        (g.wires.map (Wire.named g.name)).put ⟨a, b, data, g.clock⟩ := by
      rw [Slab.map_put]
      simp [Wire.named, wire, name_of_get? hi, name_of_get? hj, show g'.name = g.name from rfl]
    rw [place_eq]
    unfold wiring
    rw [hlinks]
    rfl

/-! ## Places -/

/-- Wires keep their ends when the names of all places that they join are kept. -/
theorem map_named_congr {wires : Slab Wire} {f f' : Nat → String}
    (same : ∀ k wire, wires.get? k = some wire →
      f wire.source = f' wire.source ∧ f wire.target = f' wire.target) :
    wires.map (Wire.named f) = wires.map (Wire.named f') := by
  unfold Slab.map
  congr 1
  refine List.map_congr_left fun cell hcell => ?_
  obtain ⟨k, hk⟩ := List.mem_iff_getElem?.mp hcell
  cases cell with
  | none => rfl
  | some wire =>
    obtain ⟨hsource, htarget⟩ := same k wire (Slab.get?_eq_some.mpr hk)
    simp [Wire.named, hsource, htarget]

/-- Adding an id that is not there puts it into a place that was not taken. -/
theorem Sound.addFresh (s : g.Sound) {id : String} (absent : id ∉ g.ids) :
    let g' : Numbered :=
      { g with places := g.places.put id, table := g.table.insert id g.places.next }
    g'.Sound ∧ g'.wiring = { g.wiring with nodes := g.ids ++ [id] } ∧
      g'.places.get? g.places.next = some id ∧
      ∀ i other, g.places.get? i = some other → g'.places.get? i = some other := by
  intro g'
  have hput := s.places.get?_put id
  have hnext := s.places.get?_next
  have keep : ∀ i other, g.places.get? i = some other → g'.places.get? i = some other := by
    intro i other hi
    have hne : i ≠ g.places.next := fun he => by cases (he ▸ hi).symm.trans hnext
    exact (hput i).trans (by rw [if_neg hne, hi])
  have hkeys : g'.ids = g.ids ++ [id] :=
    (Entries.keys_insert g.table id g.places.next).trans (if_neg absent)
  refine ⟨⟨s.places.put id, s.wires, fun other i => ?_, ?_, ?_, fun k wire hk => ?_⟩, ?_,
    (hput _).trans (if_pos rfl), keep⟩
  · show (g.table.insert id g.places.next).get? other = some i ↔ (g.places.put id).get? i = some other
    rw [Entries.get?_insert, hput]
    by_cases ho : other = id <;> by_cases hi : i = g.places.next
    · simp [ho, hi]
    · rw [if_pos ho, if_neg hi]
      have hnone : g.places.get? i ≠ some other := fun h => absent (ho ▸ s.mem_ids.mpr ⟨i, h⟩)
      simp [hnone, Ne.symm hi]
    · rw [if_neg ho, if_pos hi]
      have hnone : g.table.get? other ≠ some i := fun h => by
        cases (hi ▸ (s.table other i).mp h).symm.trans hnext
      simp [hnone, Ne.symm ho]
    · rw [if_neg ho, if_neg hi, s.table]
  · exact Entries.nodup_keys_insert s.nodup id _
  · rw [hkeys, List.length_append, s.counted]
    exact (s.places.count_put id).symm
  · obtain ⟨⟨a, ha⟩, ⟨b, hb⟩⟩ := s.joins k wire hk
    exact ⟨⟨a, keep _ a ha⟩, ⟨b, keep _ b hb⟩⟩
  · have hlinks : g.wires.map (Wire.named g'.name) = g.wires.map (Wire.named g.name) := by
      refine map_named_congr fun k wire hk => ?_
      obtain ⟨⟨a, ha⟩, ⟨b, hb⟩⟩ := s.joins k wire hk
      rw [name_of_get? ha, name_of_get? hb, name_of_get? (keep _ a ha), name_of_get? (keep _ b hb)]
      exact ⟨rfl, rfl⟩
    unfold wiring
    rw [hkeys, show g'.wires = g.wires from rfl, hlinks]

theorem Sound.addNode (s : g.Sound) (id : String) :
    (g.addNode id).1.Sound ∧ (g.addNode id).1.wiring = g.wiring.addNode id ∧
      (g.addNode id).1.places.get? (g.addNode id).2 = some id ∧
      ∀ i other, g.places.get? i = some other → (g.addNode id).1.places.get? i = some other := by
  have hmem : g.wiring.contains id = true ↔ id ∈ g.ids := by simp [Wiring.contains, wiring]
  unfold Numbered.addNode Wiring.addNode
  cases h : g.table.get? id with
  | some i =>
    have hi := (s.table id i).mp h
    rw [if_pos (hmem.mpr (s.mem_ids.mpr ⟨i, hi⟩))]
    exact ⟨s, rfl, hi, fun _ _ hother => hother⟩
  | none =>
    have absent : id ∉ g.ids := fun hin => by
      obtain ⟨i, hi⟩ := s.mem_ids.mp hin
      cases h.symm.trans ((s.table id i).mpr hi)
    rw [if_neg fun hin => absent (hmem.mp hin)]
    exact s.addFresh absent

theorem Sound.addLink (s : g.Sound) (source target : String) (data : LinkData) :
    ∃ g', g.addLink? source target data = some g' ∧ g'.Sound ∧
      g'.wiring = g.wiring.addLink source target data := by
  obtain ⟨s₁, hw₁, hi, -⟩ := s.addNode source
  obtain ⟨s₂, hw₂, hj, keep⟩ := s₁.addNode target
  obtain ⟨g', hadd, s', hw, -⟩ := s₂.addWire (keep _ _ hi) hj data
  refine ⟨g', hadd, s', ?_⟩
  rw [hw, hw₂, hw₁]
  rfl

/-! ## Vacating -/

/-- What is left when some places have been vacated and the ids in them forgotten. -/
structure Drops (g : Numbered) (is : List Nat) (g' : Numbered) : Prop where
  sound : g'.Sound
  wiring : g'.wiring = (is.map g.name).foldl Wiring.removeNode g.wiring
  places : ∀ i, g'.places.get? i = if i ∈ is then none else g.places.get? i

theorem nodup_slots (g : Numbered) : (g.placed.map Prod.fst).Nodup := by
  have rises := g.wiring.pairwise_placed
  rw [placed_wiring, List.pairwise_map] at rises
  exact List.pairwise_map.mpr (rises.imp fun h => Nat.ne_of_lt h)

/-- Wires that are there can be taken out in the order of their stamps. -/
theorem Sound.removeNewest (s : g.Sound) {wires : List (Nat × Wire)} (sub : wires.Sublist g.placed) :
    ∃ g', (newestFirst wires).foldlM removeWire? g = some g' ∧ g.Loses (newestFirst wires) g' := by
  have perm : (newestFirst wires).Perm (wires.map Prod.fst) :=
    (List.mergeSort_perm wires _).map Prod.fst
  refine s.removeWires ?_ fun k hk => ?_
  · exact perm.nodup_iff.mpr (g.nodup_slots.sublist (sub.map Prod.fst))
  · obtain ⟨p, hp, rfl⟩ := List.mem_map.mp (perm.mem_iff.mp hk)
    exact ⟨p.2, mem_placed.mp (sub.subset hp)⟩

theorem mem_newestFirst {wires : List (Nat × Wire)} {k : Nat} :
    k ∈ newestFirst wires ↔ ∃ p ∈ wires, p.1 = k :=
  ((List.mergeSort_perm wires _).map Prod.fst).mem_iff.trans List.mem_map

/-- Links are taken away in the order in which wires are taken out. -/
theorem newestFirst_link (name : Nat → String) (wires : List (Nat × Wire)) :
    (Wiring.newestFirst (wires.map (link name))).map PlacedLink.slot = newestFirst wires := by
  unfold Wiring.newestFirst newestFirst
  rw [← List.map_mergeSort (fun p _ q _ => ?_), List.map_map]
  · rfl
  · rfl

/-- The wires that are left when those with an end in a place have been taken out. -/
theorem Loses.get?_wires {g' : Numbered} {wires : List (Nat × Wire)}
    (h : g.Loses (newestFirst wires) g') {k : Nat} {wire : Wire}
    (hk : g'.wires.get? k = some wire) : (k, wire) ∈ g.placed ∧ (k, wire) ∉ wires := by
  rw [h.wires] at hk
  split at hk
  · cases hk
  · next out => exact ⟨mem_placed.mpr hk, fun hin => out (mem_newestFirst.mpr ⟨_, hin, rfl⟩)⟩

theorem Loses.name {g' : Numbered} {slots : List Nat} (h : g.Loses slots g') :
    g'.name = g.name := by
  unfold Numbered.name
  rw [h.places]

/-- A place that no wire joins can be emptied, and the id in it forgotten. -/
theorem Sound.empty (s : g.Sound) {i : Nat} {id : String} (hi : g.places.get? i = some id)
    (apart : ∀ k wire, g.wires.get? k = some wire → wire.source ≠ i ∧ wire.target ≠ i)
    {places : Slab String} (taken : g.places.take? i = some places) :
    let g' : Numbered := { g with places, table := g.table.erase id }
    g'.Sound ∧ g'.wiring = { g.wiring with nodes := g.ids.erase id } ∧
      ∀ j, g'.places.get? j = if j = i then none else g.places.get? j := by
  intro g'
  have hplaces : ∀ j, places.get? j = if j = i then none else g.places.get? j :=
    Slab.get?_take hi taken
  have hid : g.table.get? id = some i := (s.table id i).mpr hi
  have hkeys : g'.ids = g.ids.erase id := Entries.keys_erase g.table id
  refine ⟨⟨s.places.take hi taken, s.wires, fun other j => ?_, ?_, ?_, fun k wire hk => ?_⟩, ?_,
    hplaces⟩
  · show (g.table.erase id).get? other = some j ↔ places.get? j = some other
    rw [hplaces j]
    by_cases ho : other = id
    · subst ho
      rw [Entries.get?_erase_self s.nodup]
      have hne : j = i ∨ g.places.get? j ≠ some other := or_iff_not_imp_left.mpr fun hj h =>
        hj (Option.some.inj (((s.table other j).mpr h).symm.trans hid))
      rcases hne with rfl | hne <;> simp [*]
    · rw [Entries.get?_erase_of_ne _ ho, s.table]
      by_cases hj : j = i
      · simp [hj, hi, Ne.symm ho]
      · rw [if_neg hj]
  · rw [hkeys]
    exact s.nodup.erase id
  · have hcount := Slab.count_take hi taken
    rw [hkeys, List.length_erase_of_mem (s.mem_ids.mpr ⟨i, hi⟩), s.counted]
    exact Nat.sub_eq_of_eq_add hcount.symm
  · obtain ⟨⟨a, ha⟩, ⟨b, hb⟩⟩ := s.joins k wire hk
    obtain ⟨hsource, htarget⟩ := apart k wire hk
    exact ⟨⟨a, (hplaces _).trans (by rw [if_neg hsource, ha])⟩,
      ⟨b, (hplaces _).trans (by rw [if_neg htarget, hb])⟩⟩
  · have hlinks : g.wires.map (Wire.named g'.name) = g.wires.map (Wire.named g.name) := by
      refine map_named_congr fun k wire hk => ?_
      obtain ⟨hsource, htarget⟩ := apart k wire hk
      simp only [name, g', hplaces, if_neg hsource, if_neg htarget, and_self]
    unfold wiring
    rw [hkeys, show g'.wires = g.wires from rfl, hlinks]

/-- A place is vacated as a node is removed. -/
theorem Sound.vacate (s : g.Sound) {i : Nat} {id : String} (hi : g.places.get? i = some id) :
    ∃ g', g.vacate? i = some g' ∧ g.Drops [i] (g'.forget id) := by
  obtain ⟨leaving, hfrom, hsub, mem_leaving, hleaving⟩ := s.wiresFrom hi
  obtain ⟨g₁, hfirst, l₁⟩ := s.removeNewest hsub
  have hi₁ : g₁.places.get? i = some id := l₁.places ▸ hi
  obtain ⟨entering, hinto, hsub₁, mem_entering, hentering⟩ := l₁.sound.wiresInto hi₁
  obtain ⟨g₂, hsecond, l₂⟩ := l₁.sound.removeNewest hsub₁
  have hi₂ : g₂.places.get? i = some id := l₂.places ▸ hi₁
  -- no wire is left that has an end in the place
  have apart : ∀ k wire, g₂.wires.get? k = some wire → wire.source ≠ i ∧ wire.target ≠ i := by
    intro k wire hk
    obtain ⟨hplaced, hout⟩ := l₂.get?_wires hk
    obtain ⟨hplaced', hout'⟩ := l₁.get?_wires (mem_placed.mp hplaced)
    exact ⟨fun he => hout' ((mem_leaving _).mpr ⟨hplaced', he⟩),
      fun he => hout ((mem_entering _).mpr ⟨hplaced, he⟩)⟩
  obtain ⟨places, taken⟩ : ∃ places, g₂.places.take? i = some places := ⟨_, Slab.take?_eq hi₂⟩
  obtain ⟨sound, hwiring, hplaces⟩ := l₂.sound.empty hi₂ apart taken
  refine ⟨{ g₂ with places }, ?_, sound, ?_, fun j => ?_⟩
  · simp [vacate?, hfrom, hfirst, hinto, hsecond, taken]
  · have hw₁ : g₁.wiring = (Wiring.newestFirst (g.wiring.outgoing id)).foldl
        (fun w p => w.removeLink p.slot) g.wiring := by
      rw [l₁.wiring, ← newestFirst_link g.name, hleaving, List.foldl_map]
    have hw₂ : g₂.wiring = (Wiring.newestFirst (g₁.wiring.incoming id)).foldl
        (fun w p => w.removeLink p.slot) g₁.wiring := by
      rw [l₂.wiring, ← newestFirst_link g₁.name, hentering, List.foldl_map]
    refine hwiring.trans ?_
    rw [List.map_singleton, List.foldl_cons, List.foldl_nil, name_of_get? hi]
    unfold Wiring.removeNode
    dsimp only
    rw [← hw₁, ← hw₂]
    rfl
  · exact (hplaces j).trans (by simp [l₂.places, l₁.places])

theorem Sound.drop (s : g.Sound) {i : Nat} (taken : g.Taken i) :
    ∃ g', g.drop? i = some g' ∧ g.Drops [i] g' := by
  obtain ⟨id, hi⟩ := taken
  obtain ⟨g', hvacate, drops⟩ := s.vacate hi
  exact ⟨g'.forget id, by simp [drop?, hi, hvacate], drops⟩

/-- Vacating places, none of them twice. -/
theorem Sound.drops (s : g.Sound) {is : List Nat} (nodup : is.Nodup)
    (taken : ∀ i ∈ is, g.Taken i) : ∃ g', is.foldlM drop? g = some g' ∧ g.Drops is g' := by
  induction is generalizing g with
  | nil => exact ⟨g, rfl, s, rfl, by simp⟩
  | cons i is ih =>
    obtain ⟨fresh, nodup⟩ := List.nodup_cons.mp nodup
    obtain ⟨hi, taken⟩ := List.forall_mem_cons.mp taken
    obtain ⟨g₁, hfirst, one⟩ := s.drop hi
    have hplaces : ∀ j ∈ is, g₁.places.get? j = g.places.get? j := by
      intro j hj
      have hne : j ∉ [i] := by simpa using fun he : j = i => fresh (he ▸ hj)
      rw [one.places, if_neg hne]
    obtain ⟨g', hrest, all⟩ := ih one.sound nodup fun j hj =>
      (taken j hj).imp fun id hid => (hplaces j hj).trans hid
    refine ⟨g', by rw [List.foldlM_cons, hfirst]; exact hrest, all.sound, ?_, fun j => ?_⟩
    · have hnames : is.map g₁.name = is.map g.name :=
        List.map_congr_left fun j hj => by unfold name; rw [hplaces j hj]
      rw [all.wiring, one.wiring, hnames]
      rfl
    · rw [all.places, one.places]
      by_cases he : j = i <;> by_cases hj : j ∈ is <;> simp [he, hj, fresh]

end Numbered

end WorkflowCompiler
