import WorkflowCompiler.Proofs.Compile.Accepting
import WorkflowCompiler.Proofs.Wiring.Grouping

/-!
# Handing bodies to cases

Each case takes the body under its key out of the bodies that were found. So a key that one case
declares gets its body, and every node on a path of that case becomes a member of its branch. A key
that several cases declare gets its body at the first of them and loses it at the next, where there
is none left.
-/
namespace WorkflowCompiler

namespace Branching

/-- The number of cases with a key. -/
def declarers (b : Branching) (key : String) : Nat := (b.cases.map ForkCase.key).count key

/-- What comes under a key by handing out bodies depends on how many cases declare it. -/
theorem get?_assignTo_count (cases : List ForkCase) {bodies : Entries (List String)}
    (distinct : bodies.keys.Nodup) (branches : Entries (List String)) (key : String) :
    (assignTo cases bodies branches).get? key =
      match (cases.map ForkCase.key).count key with
      | 0 => branches.get? key
      | 1 => some ((bodies.get? key).getD [])
      | _ + 2 => some [] := by
  induction cases generalizing bodies branches with
  | nil => rfl
  | cons c cases ih =>
    rw [assignTo, ih (Entries.nodup_keys_erase distinct _), List.map_cons]
    by_cases he : c.key = key
    · subst he
      rw [List.count_cons_self, Entries.get?_insert_self, Entries.get?_erase_self distinct]
      rcases (cases.map ForkCase.key).count c.key with _ | _ | n <;> rfl
    · rw [List.count_cons_of_ne he, Entries.get?_insert_of_ne _ _ (Ne.symm he),
        Entries.get?_erase_of_ne _ (Ne.symm he)]

/-- What handing out bodies makes of the branches of a fork. -/
structure HandsOut (b : Branching) (bodies : Entries (List String)) (b' : Branching) : Prop where
  cases : b'.cases = b.cases
  leaving : b'.leaving = b.leaving
  others : ∀ key, b.declarers key = 0 → b'.branches.get? key = b.branches.get? key
  sole : ∀ key, b.declarers key = 1 → b'.branches.get? key = some ((bodies.get? key).getD [])
  shared : ∀ key, 2 ≤ b.declarers key → b'.branches.get? key = some []

theorem handsOut_assign (b : Branching) {bodies : Entries (List String)}
    (distinct : bodies.keys.Nodup) : b.HandsOut bodies (b.assign bodies) := by
  have under := get?_assignTo_count b.cases distinct b.branches
  refine ⟨rfl, rfl, fun key h => ?_, fun key h => ?_, fun key h => ?_⟩
  · exact (under key).trans (by rw [show List.count key _ = 0 from h])
  · exact (under key).trans (by rw [show List.count key _ = 1 from h])
  · obtain ⟨n, hn⟩ := Nat.exists_eq_add_of_le' h
    exact (under key).trans (by rw [show List.count key _ = n + 2 from hn])

open Wiring in
/-- The nodes of a path are in the branch of the case that it leaves by, when no other case has the
same key. -/
theorem mem_branch_assign (b : Branching) {w : Wiring} (built : w.Built) {start stop : String}
    {bodies : Entries (List String)} (found : w.regionsByKey start stop = .ok (some bodies))
    {path : List PlacedLink} (simple : w.SimplePath start stop path)
    (sole : b.declarers (pathKey path) = 1) {id : String} (hid : id ∈ visits start path)
    (hstart : id ≠ start) (hstop : id ≠ stop) : id ∈ (b.assign bodies).branch (pathKey path) := by
  obtain ⟨-, -, rfl⟩ := regionsByKey_eq_some found
  have grouped := built.valid.bodies_group start stop
  have hkey := (grouped.keys _).mpr ⟨path, simple, rfl⟩
  obtain ⟨body, hbody⟩ := Entries.exists_get?_of_contains ((Entries.contains_iff _ _).mpr hkey)
  have hmem := (grouped.mem _ body hbody id).mpr ⟨hstart, hstop, path, simple, rfl, hid⟩
  unfold branch
  rw [(b.handsOut_assign grouped.distinct).sole _ sole, hbody]
  exact hmem

open Wiring in
/-- Handing out bodies changes the branches of the declared keys and of no other. A key that one
case declares gets the body under it, so that every node on a path of this case is in its branch; a
key that several cases declare is left with nothing. -/
theorem assign_keeps_sole_bodies (b : Branching) :
    (∀ bodies : Entries (List String), bodies.keys.Nodup → b.HandsOut bodies (b.assign bodies)) ∧
    ∀ (w : Wiring) (start stop : String) (bodies : Entries (List String)), w.Built →
      w.regionsByKey start stop = .ok (some bodies) →
      ∀ path, w.SimplePath start stop path → b.declarers (pathKey path) = 1 →
        ∀ id ∈ visits start path, id ≠ start → id ≠ stop →
          id ∈ (b.assign bodies).branch (pathKey path) :=
  ⟨fun _ distinct => b.handsOut_assign distinct,
    fun _ _ _ _ built found _ simple sole _ hid hstart hstop =>
      b.mem_branch_assign built found simple sole hid hstart hstop⟩

/-- A fork with two cases of its own and two more that have a key in common. -/
def overlapping : Branching :=
  .ofCases [⟨"p", "a"⟩, ⟨"q", "b"⟩, ⟨"r", "c"⟩, ⟨"t", "c"⟩]

/-- One of the paths of `tangle` with the key `b`. -/
def tanglePath : List PlacedLink :=
  [⟨1, "fork", "right", { key := "b" }, 1⟩, ⟨3, "right", "shared", {}, 3⟩,
    ⟨5, "shared", "join", {}, 5⟩]

open Wiring in
theorem assign_keeps_sole_bodies_tangle :
    ∃ bodies, tangle.regionsByKey "fork" "join" = .ok (some bodies) ∧ bodies.keys.Nodup ∧
      overlapping.HandsOut bodies (overlapping.assign bodies) ∧
      tangle.SimplePath "fork" "join" tanglePath ∧
      overlapping.declarers (pathKey tanglePath) = 1 ∧ "shared" ∈ visits "fork" tanglePath ∧
      "shared" ∈ (overlapping.assign bodies).branch (pathKey tanglePath) := by
  have found : tangle.regionsByKey "fork" "join" =
      .ok (some [("a", ["left", "shared"]), ("b", ["right", "shared"])]) := by cbv
  have simple : tangle.SimplePath "fork" "join" tanglePath :=
    ⟨by decide +kernel, ⟨rfl, rfl, rfl, rfl⟩, by decide +kernel⟩
  have sole : overlapping.declarers (pathKey tanglePath) = 1 := by decide +kernel
  have visited : "shared" ∈ visits "fork" tanglePath := by decide +kernel
  have distinct : (Entries.keys [("a", ["left", "shared"]), ("b", ["right", "shared"])]).Nodup := by
    decide +kernel
  obtain ⟨handsOut, kept⟩ := assign_keeps_sole_bodies overlapping
  exact ⟨_, found, distinct, handsOut _ distinct, simple, sole, visited,
    kept _ _ _ _ (built_wired _ _) found _ simple sole _ visited (by decide) (by decide)⟩

end Branching

namespace Level

/-- A switch on an integer, two of whose cases are written `1` and `01`. -/
def switchTwice : EditorNode where
  id := "f"
  data := [("payload__kind", .string "switch"),
    ("config__input_shape", .array [.object
      [("variable_name", .string "n"), ("variable_type", .string "int")]]),
    ("config__output_ports", .array
      [.object [("id", .string "p"), ("cond", .string "1")],
        .object [("id", .string "q"), ("cond", .string "01")]])]

/-- A graph with a node behind either of the two cases. -/
def sharedKey : EditorGraph where
  nodes := [bareNode "s" "start", switchTwice, bareNode "a" "formatter", bareNode "b" "formatter",
    bareNode "g" "aggregator", bareNode "e" "end"]
  edges := [{ source := "s", target := "f" },
    { source := "f", target := "a", sourceHandle := some "p" },
    { source := "f", target := "b", sourceHandle := some "q" },
    { source := "a", target := "g" }, { source := "b", target := "g" },
    { source := "g", target := "e" }]

/-- The body of two cases with one key is lost, so a declared key is left without its body. -/
theorem shared_key_loses_bodies :
    ∃ s, buildAll (nestedCompiler 16) sharedKey {} = (.ok (), s) ∧
      (wiring s.registry sharedKey).regionsByKey "f" "g" = .ok (some [("1", ["a", "b"])]) ∧
      ∃ b, s.HasBranching "f" b ∧ (b.assign [("1", ["a", "b"])]).branch "1" = [] ∧
        ¬ ∀ key ∈ b.cases.map ForkCase.key,
          (b.assign [("1", ["a", "b"])]).branch key =
            (Entries.get? [("1", ["a", "b"])] key).getD [] := by
  have ok : (buildAll (nestedCompiler 16) sharedKey {}).1.isOk = true := by decide +kernel
  have found : ((wiring (buildAll (nestedCompiler 16) sharedKey {}).2.registry
      sharedKey).regionsByKey "f" "g").toOption = some (some [("1", ["a", "b"])]) := by
    decide +kernel
  have branching : ((buildAll (nestedCompiler 16) sharedKey {}).2.node? "f").bind
      (fun node => node.body.branching?) =
        some (.ofCases [⟨"p", "1"⟩, ⟨"q", "1"⟩, ⟨"default", "default"⟩]) := by decide +kernel
  rcases run : buildAll (nestedCompiler 16) sharedKey {} with ⟨e | _, s⟩
  · rw [run] at ok
    cases ok
  · rw [run] at found branching
    obtain ⟨node, hnode, hb⟩ := Option.bind_eq_some_iff.mp branching
    refine ⟨s, rfl, eq_ok_of_toOption found, _, ⟨node, hnode, hb⟩, by decide +kernel, fun all => ?_⟩
    have lost := all "1" (by decide)
    exact absurd lost (by decide +kernel)

end Level

end WorkflowCompiler
