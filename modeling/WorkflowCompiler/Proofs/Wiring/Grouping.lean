import Mathlib.Logic.Relation
import WorkflowCompiler.Proofs.Wiring.Lanes
import WorkflowCompiler.Proofs.Wiring.Wired

/-!
# Groups of simple paths

The search for paths turns back at each node that it has met. So on every wiring, with cycles or
without, it finds the simple paths and nothing else, and there is a simple path wherever one node
leads to another. The bodies between two nodes are the nodes of the simple paths, grouped by the key
of the first link.
-/
namespace WorkflowCompiler

namespace Wiring

open Relation

/-- The nodes that a path meets, its ends included. -/
def visits (start : String) (path : List PlacedLink) : List String :=
  start :: path.map fun p => p.link.target

/-- Links that lead in a row from one node to another and meet no node twice. -/
structure SimplePath (w : Wiring) (start stop : String) (path : List PlacedLink) : Prop where
  placed : ∀ p ∈ path, p ∈ w.placed
  chained : Chained start stop (path.map PlacedLink.arrow)
  simple : (visits start path).Nodup

section Paths

variable {w : Wiring} {start stop : String} {path : List PlacedLink}

theorem Walk.chained (walk : w.Walk stop start path) :
    Chained start stop (path.map PlacedLink.arrow) := by
  induction walk with
  | here => rfl
  | along _ _ _ ih => exact ⟨rfl, ih⟩

theorem SimplePath.nil (w : Wiring) (start : String) : w.SimplePath start start [] :=
  ⟨by simp, rfl, by simp [visits]⟩

theorem SimplePath.cons {p : PlacedLink} (placed : p ∈ w.placed)
    (h : w.SimplePath p.link.target stop path) (fresh : p.link.source ∉ visits p.link.target path) :
    w.SimplePath p.link.source stop (p :: path) where
  placed := List.forall_mem_cons.mpr ⟨placed, h.placed⟩
  chained := ⟨rfl, h.chained⟩
  simple := List.nodup_cons.mpr ⟨fresh, h.simple⟩

/-- What is left of a simple path behind one of its links is simple. -/
theorem SimplePath.behind (front : List PlacedLink) {rest : List PlacedLink} {p : PlacedLink}
    (h : w.SimplePath start stop (front ++ p :: rest)) :
    w.SimplePath p.link.target stop rest := by
  induction front generalizing start with
  | nil =>
    exact ⟨fun q hq => h.placed q (List.mem_cons_of_mem _ hq), h.chained.2,
      (List.nodup_cons.mp h.simple).2⟩
  | cons q front ih =>
    exact ih ⟨fun r hr => h.placed r (List.mem_cons_of_mem _ hr), h.chained.2,
      (List.nodup_cons.mp h.simple).2⟩

/-- Where one node leads to another, some simple path does. -/
theorem exists_simplePath (h : ReflTransGen w.Joined start stop) :
    ∃ path, w.SimplePath start stop path := by
  induction h using ReflTransGen.head_induction_on with
  | refl => exact ⟨[], .nil w stop⟩
  | @head a x hax _ ih =>
    obtain ⟨path, hpath⟩ := ih
    obtain ⟨p, hp, rfl, rfl⟩ := hax
    by_cases met : p.link.source ∈ visits p.link.target path
    · -- the path comes back to where it starts, so the detour is left out
      rcases List.mem_cons.mp met with he | met
      · exact ⟨path, he ▸ hpath⟩
      · obtain ⟨q, hq, he⟩ := List.mem_map.mp met
        obtain ⟨front, rest, rfl⟩ := List.append_of_mem hq
        exact ⟨rest, he ▸ hpath.behind front⟩
    · exact ⟨p :: path, hpath.cons hp met⟩

theorem SimplePath.leads (h : w.SimplePath start stop path) : ReflTransGen w.Joined start stop := by
  induction path generalizing start with
  | nil =>
    obtain rfl : start = stop := h.chained
    exact .refl
  | cons p path ih =>
    obtain rfl : p.link.source = start := h.chained.1
    exact .head ⟨p, h.placed p List.mem_cons_self, rfl, rfl⟩ (ih (h.behind []))

/-- A simple path leaves its last node nowhere. -/
theorem SimplePath.walk (h : w.SimplePath start stop path) : w.Walk stop start path := by
  refine h.chained.walk h.placed fun p hp he => ?_
  have hvisits : visits start path = (path.map PlacedLink.arrow).map Arrow.source ++ [stop] := by
    rw [← h.chained.targets, List.map_map]
    rfl
  have hnodup := h.simple
  rw [hvisits] at hnodup
  have hsource : stop ∈ (path.map PlacedLink.arrow).map Arrow.source :=
    he ▸ List.mem_map_of_mem (List.mem_map_of_mem hp)
  exact (List.nodup_append.mp hnodup).2.2 stop hsource stop (List.mem_singleton_self _) rfl

/-- The search turns back at nodes that it has met. -/
theorem nodup_of_mem_pathsFrom {n : Nat} {visited : List String}
    (h : path ∈ w.pathsFrom stop n start visited) : (path.map fun p => p.link.target).Nodup := by
  induction n generalizing start visited path with
  | zero =>
    rw [pathsFrom_eq] at h
    split at h
    · obtain rfl := List.mem_singleton.mp h
      exact .nil
    · cases h
  | succ n ih =>
    rw [pathsFrom_eq] at h
    split at h
    · obtain rfl := List.mem_singleton.mp h
      exact .nil
    · obtain ⟨p, -, hmem⟩ := List.mem_flatMap.mp h
      split at hmem
      · cases hmem
      · obtain ⟨rest, hrest, rfl⟩ := List.mem_map.mp hmem
        refine List.nodup_cons.mpr ⟨fun hin => ?_, ih hrest⟩
        obtain ⟨q, hq, he⟩ := List.mem_map.mp hin
        exact (walk_of_mem_pathsFrom hrest).2 q hq (he ▸ List.mem_cons_self)

/-- The paths that are found are the simple ones. -/
theorem Valid.mem_paths_iff_simple (v : w.Valid) :
    path ∈ w.paths start stop ↔ w.SimplePath start stop path := by
  constructor
  · intro h
    obtain ⟨walk, fresh⟩ := walk_of_mem_pathsFrom h
    refine ⟨walk.placed, walk.chained, List.nodup_cons.mpr ⟨fun hin => ?_, nodup_of_mem_pathsFrom h⟩⟩
    obtain ⟨p, hp, he⟩ := List.mem_map.mp hin
    exact fresh p hp (List.mem_singleton.mpr he)
  · intro h
    obtain ⟨fresh, simple⟩ := List.nodup_cons.mp h.simple
    refine mem_pathsFrom_of_walk h.walk ?_ (fun p hp hin => fresh ?_) simple
    · have hsub : (path.map fun p => p.link.target) ⊆ w.nodes := by
        intro id hid
        obtain ⟨p, hp, rfl⟩ := List.mem_map.mp hid
        exact v.target p (h.placed p hp)
      simpa using (simple.subperm hsub).length_le
    · exact List.mem_map.mpr ⟨p, hp, List.mem_singleton.mp hin⟩

theorem Valid.paths_eq_nil_iff (v : w.Valid) :
    w.paths start stop = [] ↔ ¬ ReflTransGen w.Joined start stop := by
  rw [List.eq_nil_iff_forall_not_mem]
  constructor
  · intro none h
    obtain ⟨path, hpath⟩ := exists_simplePath h
    exact none path (v.mem_paths_iff_simple.mpr hpath)
  · exact fun unreached path hpath => unreached (v.mem_paths_iff_simple.mp hpath).leads

end Paths

/-! ## Bodies -/

theorem mem_keyed {paths : List (List PlacedLink)} {key : String} {path : List PlacedLink} :
    path ∈ keyed paths key ↔ path ∈ paths ∧ pathKey path = key := by
  unfold keyed
  rw [List.mem_filter, decide_eq_true_eq]

theorem mem_keys_group {stop : String} {paths : List (List PlacedLink)} {key : String} :
    key ∈ (group stop paths).keys ↔ ∃ path ∈ paths, pathKey path = key := by
  have hkeyed : keyed paths key ≠ [] ↔ ∃ path ∈ paths, pathKey path = key := by
    rw [Ne, List.eq_nil_iff_forall_not_mem, not_forall_not]
    exact exists_congr fun path => mem_keyed
  rw [← hkeyed, ← Entries.contains_iff]
  unfold Entries.contains
  rw [get?_group]
  by_cases h : keyed paths key = [] <;> simp [h]

theorem mem_inner {start stop id : String} {path : List PlacedLink}
    (simple : (visits start path).Nodup) :
    id ∈ inner stop path ↔ id ≠ start ∧ id ≠ stop ∧ id ∈ visits start path := by
  unfold inner visits
  rw [List.mem_filter, decide_eq_true_eq, List.mem_cons]
  have hstart : id ∈ path.map (fun p => p.link.target) → id ≠ start :=
    fun hin he => (List.nodup_cons.mp simple).1 (he ▸ hin)
  tauto

/-- What stands between two nodes: the nodes of the simple paths that join them, but for the two
nodes, each once under the key of each path that meets it. -/
structure Bodies (w : Wiring) (start stop : String) (bodies : Entries (List String)) : Prop where
  distinct : bodies.keys.Nodup
  keys : ∀ key, key ∈ bodies.keys ↔ ∃ path, w.SimplePath start stop path ∧ pathKey path = key
  empty_key : start = stop → bodies.keys = [""]
  nodup : ∀ key body, bodies.get? key = some body → body.Nodup
  mem : ∀ key body, bodies.get? key = some body → ∀ id, id ∈ body ↔
    id ≠ start ∧ id ≠ stop ∧
      ∃ path, w.SimplePath start stop path ∧ pathKey path = key ∧ id ∈ visits start path

theorem Valid.bodies_group {w : Wiring} (v : w.Valid) (start stop : String) :
    w.Bodies start stop (group stop (w.paths start stop)) where
  distinct := nodup_keys_group stop _
  keys key := by
    rw [mem_keys_group]
    simp only [v.mem_paths_iff_simple]
  empty_key he := by
    have hpaths : w.paths start stop = [[]] := by
      unfold paths
      rw [pathsFrom_eq, if_pos he]
    rw [hpaths]
    rfl
  nodup key body h := by
    rw [get?_group] at h
    split at h
    · cases h
    · exact Option.some.inj h ▸ nodup_appendNew .nil
  mem key body h id := by
    rw [get?_group] at h
    split at h
    · cases h
    obtain rfl := Option.some.inj h
    rw [mem_appendNew, List.mem_flatMap]
    constructor
    · rintro (hnil | ⟨path, hpath, hid⟩)
      · cases hnil
      · obtain ⟨hpath, hkey⟩ := List.mem_filter.mp hpath
        have hsimple := v.mem_paths_iff_simple.mp hpath
        obtain ⟨hstart, hstop, hid⟩ := (mem_inner hsimple.simple).mp hid
        exact ⟨hstart, hstop, path, hsimple, of_decide_eq_true hkey, hid⟩
    · rintro ⟨hstart, hstop, path, hsimple, hkey, hid⟩
      have hpath := mem_keyed.mpr ⟨v.mem_paths_iff_simple.mpr hsimple, hkey⟩
      exact .inr ⟨path, hpath, (mem_inner hsimple.simple).mpr ⟨hstart, hstop, hid⟩⟩

/-- Between two nodes of any wiring nothing is found when the first one does not lead to the last
one, and otherwise the bodies that stand between them. -/
theorem Built.groups_simple_paths {w : Wiring} (built : w.Built) {start stop : String}
    (hstart : start ∈ w.nodes) (hstop : stop ∈ w.nodes) :
    ∃ found, w.regionsByKey start stop = .ok found ∧
      (found = none ↔ ¬ ReflTransGen w.Joined start stop) ∧
      ∀ bodies, found = some bodies → w.Bodies start stop bodies := by
  have v := built.valid
  refine ⟨_, regionsByKey_eq hstart hstop, ?_, fun bodies hbodies => ?_⟩
  · rw [← v.paths_eq_nil_iff]
    by_cases hnone : w.paths start stop = [] <;> simp [hnone]
  · split at hbodies
    · cases hbodies
    · exact Option.some.inj hbodies ▸ v.bodies_group start stop

/-- A fork with three cases, two of which share a node; one link leads back into a case and one back
to the fork, and one case leads nowhere. -/
def tangle : Wiring :=
  wired []
    [⟨"fork", "left", { key := "a" }⟩, ⟨"fork", "right", { key := "b" }⟩, ⟨"left", "shared", {}⟩,
      ⟨"right", "shared", {}⟩, ⟨"shared", "left", {}⟩, ⟨"shared", "join", {}⟩,
      ⟨"join", "fork", {}⟩, ⟨"fork", "join", { key := "b" }⟩, ⟨"fork", "off", { key := "c" }⟩]

theorem groups_simple_paths_tangle :
    ∃ bodies, tangle.regionsByKey "fork" "join" = .ok (some bodies) ∧
      tangle.Bodies "fork" "join" bodies ∧
      bodies = [("a", ["left", "shared"]), ("b", ["right", "shared"])] := by
  have hstart : "fork" ∈ tangle.nodes := by decide +kernel
  have hstop : "join" ∈ tangle.nodes := by decide +kernel
  obtain ⟨found, hfound, -, hbodies⟩ :=
    Built.groups_simple_paths (built_wired _ _ : tangle.Built) hstart hstop
  have hrun : tangle.regionsByKey "fork" "join" =
      .ok (some [("a", ["left", "shared"]), ("b", ["right", "shared"])]) := by cbv
  obtain rfl := Except.ok.inj (hfound.symm.trans hrun)
  exact ⟨_, hrun, hbodies _ rfl, rfl⟩

end Wiring

end WorkflowCompiler
