import WorkflowCompiler.Proofs.Entries
import WorkflowCompiler.Proofs.Results
import WorkflowCompiler.Proofs.Wiring.Sorting

/-!
# Regions between two nodes

The paths between two nodes are walks along placed links, so in any order of the nodes in which
links lead forward a region lies strictly between its ends. Folding a region leaves all links
outside it and hands those of its last node to its first.
-/
namespace WorkflowCompiler

/-- A connection without the slot that it stands in. -/
structure Arrow where
  source : String
  target : String
  data : LinkData
  deriving DecidableEq

/-- The connection that a placed link makes. -/
def PlacedLink.arrow (p : PlacedLink) : Arrow := ⟨p.link.source, p.link.target, p.link.data⟩

namespace Wiring

/-- A walk along placed links that meets no node of `visited` and leaves `stop` nowhere. -/
inductive Walk (w : Wiring) (stop : String) : String → List PlacedLink → Prop
  | here : Walk w stop stop []
  | along {p : PlacedLink} {path : List PlacedLink} (placed : p ∈ w.placed)
      (ne : p.link.source ≠ stop) (rest : Walk w stop p.link.target path) :
      Walk w stop p.link.source (p :: path)

theorem pathsFrom_eq (w : Wiring) (stop : String) (n : Nat) (here : String)
    (visited : List String) :
    w.pathsFrom stop n here visited =
      if here = stop then [[]]
      else match n with
        | 0 => []
        | n + 1 => (w.outgoing here).flatMap fun p =>
            if visited.contains p.link.target then []
            else (w.pathsFrom stop n p.link.target (p.link.target :: visited)).map (p :: ·) := by
  cases n <;> rfl

/-- Every path that is found is a walk to `stop`. -/
theorem walk_of_mem_pathsFrom {w : Wiring} {stop : String} {n : Nat} {here : String}
    {visited : List String} {path : List PlacedLink}
    (h : path ∈ w.pathsFrom stop n here visited) :
    w.Walk stop here path ∧ ∀ p ∈ path, p.link.target ∉ visited := by
  induction n generalizing here visited path with
  | zero =>
    rw [pathsFrom_eq] at h
    split at h
    · next hs =>
      obtain rfl := List.mem_singleton.mp h
      exact ⟨hs ▸ .here, by simp⟩
    · simp at h
  | succ n ih =>
    rw [pathsFrom_eq] at h
    split at h
    · next hs =>
      obtain rfl := List.mem_singleton.mp h
      exact ⟨hs ▸ .here, by simp⟩
    · next hs =>
      obtain ⟨p, hp, hmem⟩ := List.mem_flatMap.mp h
      obtain ⟨placed, rfl⟩ := mem_outgoing.mp hp
      split at hmem
      · simp at hmem
      · next hv =>
        obtain ⟨rest, hr, rfl⟩ := List.mem_map.mp hmem
        obtain ⟨walk, fresh⟩ := ih hr
        refine ⟨.along placed hs walk, fun q hq => ?_⟩
        rcases List.mem_cons.mp hq with rfl | hq
        · simpa using hv
        · exact fun hm => fresh q hq (List.mem_cons_of_mem _ hm)

/-- The nodes between two nodes: those that some path passes through. -/
def between (w : Wiring) (start stop : String) : List String :=
  (w.paths start stop).flatMap (inner stop)

theorem mem_between {w : Wiring} {start stop id : String} :
    id ∈ w.between start stop ↔
      id ≠ stop ∧ ∃ path ∈ w.paths start stop, ∃ p ∈ path, p.link.target = id := by
  simp only [between, inner, List.mem_flatMap, List.mem_filter, List.mem_map]
  constructor
  · rintro ⟨path, hpath, ⟨p, hp, rfl⟩, hne⟩
    exact ⟨by simpa using hne, path, hpath, p, hp, rfl⟩
  · rintro ⟨hne, path, hpath, p, hp, rfl⟩
    exact ⟨path, hpath, ⟨p, hp, rfl⟩, by simpa using hne⟩

/-- What lies on a path ends in the region. -/
theorem target_of_mem_paths {w : Wiring} {start stop : String} {p : PlacedLink}
    (h : p ∈ (w.paths start stop).flatten) : p.link.target ∈ stop :: w.between start stop := by
  obtain ⟨path, hpath, hp⟩ := List.mem_flatten.mp h
  by_cases hstop : p.link.target = stop
  · exact List.mem_cons.mpr (.inl hstop)
  · exact List.mem_cons_of_mem _ (mem_between.mpr ⟨hstop, path, hpath, p, hp, rfl⟩)

theorem start_not_mem_between (w : Wiring) (start stop : String) :
    start ∉ w.between start stop := by
  intro h
  obtain ⟨-, path, hpath, p, hp, rfl⟩ := mem_between.mp h
  exact (walk_of_mem_pathsFrom hpath).2 p hp (by simp)

/-- Along a walk the position never falls, and it rises with every link. -/
theorem Walk.rising {w : Wiring} {position : String → Nat}
    (forward : ∀ a b, w.Joined a b → position a < position b) {stop here : String}
    {path : List PlacedLink} (walk : w.Walk stop here path) :
    (here = stop ∨ position here < position stop) ∧
      ∀ p ∈ path, position here < position p.link.target ∧
        (p.link.target = stop ∨ position p.link.target < position stop) := by
  induction walk with
  | here => simp
  | @along p path placed ne rest ih =>
    obtain ⟨hrest, hall⟩ := ih
    have hstep := forward _ _ ⟨p, placed, rfl, rfl⟩
    refine ⟨.inr ?_, fun q hq => ?_⟩
    · rcases hrest with he | hlt
      · rwa [he] at hstep
      · exact hstep.trans hlt
    · rcases List.mem_cons.mp hq with rfl | hq
      · exact ⟨hstep, hrest⟩
      · exact ⟨hstep.trans (hall q hq).1, (hall q hq).2⟩

/-- Where links lead forward, a region lies strictly between its ends. -/
theorem position_of_mem_between {w : Wiring} {position : String → Nat}
    (forward : ∀ a b, w.Joined a b → position a < position b) {start stop id : String}
    (h : id ∈ w.between start stop) : position start < position id ∧ position id < position stop := by
  obtain ⟨hne, path, hpath, p, hp, rfl⟩ := mem_between.mp h
  obtain ⟨hlow, hhigh⟩ := ((walk_of_mem_pathsFrom hpath).1.rising forward).2 p hp
  exact ⟨hlow, hhigh.resolve_left hne⟩

theorem Walk.placed {w : Wiring} {stop here : String} {path : List PlacedLink}
    (walk : w.Walk stop here path) : ∀ p ∈ path, p ∈ w.placed := by
  induction walk with
  | here => simp
  | along hp _ _ ih => simpa [hp] using ih

theorem placed_of_mem_paths {w : Wiring} {start stop : String} {p : PlacedLink}
    (h : p ∈ (w.paths start stop).flatten) : p ∈ w.placed := by
  obtain ⟨path, hpath, hp⟩ := List.mem_flatten.mp h
  exact (walk_of_mem_pathsFrom hpath).1.placed p hp

theorem Valid.mem_of_mem_between {w : Wiring} (v : w.Valid) {start stop id : String}
    (h : id ∈ w.between start stop) : id ∈ w.nodes := by
  obtain ⟨-, path, hpath, p, hp, rfl⟩ := mem_between.mp h
  exact v.target p ((walk_of_mem_pathsFrom hpath).1.placed p hp)

/-! ## Appending what is new -/

theorem mem_appendNew {α : Type} [DecidableEq α] {done more : List α} {x : α} :
    x ∈ appendNew done more ↔ x ∈ done ∨ x ∈ more := by
  unfold appendNew
  induction more generalizing done with
  | nil => simp
  | cons y more ih =>
    rw [List.foldl_cons, ih]
    by_cases hy : y ∈ done
    · rw [if_pos hy]
      simp only [List.mem_cons]
      grind
    · rw [if_neg hy]
      simp only [List.mem_append, List.mem_cons, List.not_mem_nil, or_false]
      grind

theorem nodup_appendNew {α : Type} [DecidableEq α] {done more : List α} (h : done.Nodup) :
    (appendNew done more).Nodup := by
  unfold appendNew
  induction more generalizing done with
  | nil => exact h
  | cons y more ih =>
    rw [List.foldl_cons]
    by_cases hy : y ∈ done
    · rw [if_pos hy]
      exact ih h
    · rw [if_neg hy]
      exact ih (List.concat_eq_append ▸ h.concat hy)

theorem prefix_appendNew {α : Type} [DecidableEq α] (done more : List α) :
    done <+: appendNew done more := by
  unfold appendNew
  induction more generalizing done with
  | nil => exact List.prefix_refl _
  | cons y more ih =>
    rw [List.foldl_cons]
    split
    · exact ih done
    · exact (List.prefix_append _ _).trans (ih _)

theorem appendNew_eq_of_nodup {α : Type} [DecidableEq α] {done more : List α}
    (h : (done ++ more).Nodup) : appendNew done more = done ++ more := by
  unfold appendNew
  induction more generalizing done with
  | nil => simp
  | cons y more ih =>
    have hy : y ∉ done := fun hd => (List.nodup_append.mp h).2.2 y hd y (by simp) rfl
    rw [List.foldl_cons, if_neg hy, ih (by simpa using h)]
    simp

/-! ## Folding a region -/

/-- The connections in the order of their slots. -/
def arrows (w : Wiring) : List Arrow := w.placed.map PlacedLink.arrow

/-- The wiring without the paths between two nodes and the nodes that they pass through. -/
def cleared (w : Wiring) (start stop : String) : Wiring :=
  (appendNew [] (w.between start stop)).foldl removeNode <|
    (appendNew [] ((w.paths start stop).flatten.map PlacedLink.slot)).foldl removeLink w

theorem placed_cleared (w : Wiring) (start stop : String) :
    (w.cleared start stop).placed = w.placed.filter fun p =>
      p ∉ (w.paths start stop).flatten ∧ p.link.source ∉ w.between start stop ∧
        p.link.target ∉ w.between start stop := by
  unfold cleared
  rw [placed_removeNodes, placed_removeLinks, List.filter_filter]
  refine List.filter_congr fun p hp => ?_
  have hslot : p.slot ∈ (w.paths start stop).flatten.map PlacedLink.slot ↔
      p ∈ (w.paths start stop).flatten := by
    constructor
    · intro h
      obtain ⟨q, hq, he⟩ := List.mem_map.mp h
      exact eq_of_slot_eq (placed_of_mem_paths hq) hp he ▸ hq
    · exact fun h => List.mem_map_of_mem h
  simp only [mem_appendNew, hslot, List.not_mem_nil, false_or, Bool.decide_and]
  rw [Bool.and_comm]

theorem mem_placed_cleared {w : Wiring} {start stop : String} {p : PlacedLink} :
    p ∈ (w.cleared start stop).placed ↔ p ∈ w.placed ∧ p ∉ (w.paths start stop).flatten ∧
      p.link.source ∉ w.between start stop ∧ p.link.target ∉ w.between start stop := by
  rw [placed_cleared, List.mem_filter, decide_eq_true_eq]

theorem Valid.cleared {w : Wiring} (v : w.Valid) (start stop : String) :
    (w.cleared start stop).Valid :=
  (v.removeLinks _).removeNodes _

theorem Valid.nodes_cleared {w : Wiring} (v : w.Valid) (start stop : String) :
    (w.cleared start stop).nodes = w.nodes.filter (· ∉ w.between start stop) := by
  unfold Wiring.cleared
  rw [(v.removeLinks _).nodes_removeNodes, nodes_removeLinks]
  refine List.filter_congr fun id _ => ?_
  simp [mem_appendNew]

/-- Clearing a region leaves the node in front of it. -/
theorem Valid.start_mem_cleared {w : Wiring} (v : w.Valid) {start : String} (h : start ∈ w.nodes)
    (stop : String) : start ∈ (w.cleared start stop).nodes := by
  rw [v.nodes_cleared]
  exact List.mem_filter.mpr ⟨h, by simpa using start_not_mem_between w start stop⟩

theorem checkEnds_eq_ok {w : Wiring} {start stop : String} :
    w.checkEnds start stop = .ok () ↔ start ∈ w.nodes ∧ stop ∈ w.nodes := by
  unfold checkEnds contains
  by_cases hs : start ∈ w.nodes <;> by_cases ht : stop ∈ w.nodes <;> simp [hs, ht]

theorem regionsByKey_eq {w : Wiring} {start stop : String} (hs : start ∈ w.nodes)
    (ht : stop ∈ w.nodes) :
    w.regionsByKey start stop =
      .ok (if w.paths start stop = [] then none else some (group stop (w.paths start stop))) := by
  unfold regionsByKey
  rw [checkEnds_eq_ok.mpr ⟨hs, ht⟩]
  cases w.paths start stop <;> rfl

theorem compress_eq {w : Wiring} {start stop : String} (hs : start ∈ w.nodes)
    (ht : stop ∈ w.nodes) :
    w.compress start stop =
      if w.paths start stop = [] then .error (.unmatchedAggregator stop)
      else .ok ((((w.cleared start stop).outgoing stop).foldl (relink start)
        (w.cleared start stop)).removeNode stop) := by
  unfold compress cleared between
  rw [checkEnds_eq_ok.mpr ⟨hs, ht⟩]
  cases w.paths start stop <;> rfl

theorem mem_of_compress {w w' : Wiring} {start stop : String}
    (h : w.compress start stop = .ok w') : start ∈ w.nodes ∧ stop ∈ w.nodes := by
  unfold compress at h
  obtain ⟨_, hends, -⟩ := bind_eq_ok.mp h
  exact checkEnds_eq_ok.mp hends

/-- A fold that succeeds clears a region, hands on what leaves its last node and removes that. -/
theorem eq_of_compress {w w' : Wiring} {start stop : String} (h : w.compress start stop = .ok w') :
    w.paths start stop ≠ [] ∧ w' = (((w.cleared start stop).outgoing stop).foldl (relink start)
      (w.cleared start stop)).removeNode stop := by
  obtain ⟨hs, ht⟩ := mem_of_compress h
  rw [compress_eq hs ht] at h
  split at h
  · cases h
  · next hpaths => exact ⟨hpaths, (Except.ok.inj h).symm⟩

/-- A region that is found is the one between two nodes that are there. -/
theorem regionsByKey_eq_some {w : Wiring} {start stop : String} {bodies : Entries (List String)}
    (h : w.regionsByKey start stop = .ok (some bodies)) :
    start ∈ w.nodes ∧ stop ∈ w.nodes ∧ bodies = group stop (w.paths start stop) := by
  unfold regionsByKey at h
  obtain ⟨_, hends, h⟩ := bind_eq_ok.mp h
  obtain ⟨hstart, hstop⟩ := checkEnds_eq_ok.mp hends
  refine ⟨hstart, hstop, ?_⟩
  split at h
  · cases h
  · exact (Option.some.inj (pure_eq_ok.mp h)).symm

theorem Valid.arrows_place {w : Wiring} (v : w.Valid) (source target : String) (data : LinkData) :
    (w.place source target data).arrows.Perm (w.arrows ++ [⟨source, target, data⟩]) := by
  have h := (v.placed_place source target data).map PlacedLink.arrow
  exact h.trans (List.perm_append_singleton _ _).symm

/-- A connection handed to another node. -/
def handed (start : String) (p : PlacedLink) : Arrow := ⟨start, p.link.target, p.link.data⟩

/-- Linking a node to others adds some of the connections and changes nothing else. -/
theorem Valid.relink {w : Wiring} (v : w.Valid) {start : String} (hs : start ∈ w.nodes)
    {ps : List PlacedLink} (targets : ∀ p ∈ ps, p.link.target ∈ w.nodes) :
    let w' := ps.foldl (relink start) w
    w'.Valid ∧ w'.nodes = w.nodes ∧
      ∃ added, w'.arrows.Perm (w.arrows ++ added) ∧ added.Sublist (ps.map (handed start)) := by
  induction ps generalizing w with
  | nil => exact ⟨v, rfl, [], by simp, .refl _⟩
  | cons p ps ih =>
    have hp := targets p (by simp)
    have hps : ∀ q ∈ ps, q.link.target ∈ w.nodes := fun q hq => targets q (by simp [hq])
    rw [List.foldl_cons]
    by_cases hold : Wiring.relink start w p = w
    · rw [hold]
      obtain ⟨v', hn, added, perm, sub⟩ := ih v hs hps
      exact ⟨v', hn, added, perm, sub.cons _⟩
    · have hnew : Wiring.relink start w p = w.place start p.link.target p.link.data := by
        unfold Wiring.relink at hold ⊢
        split at hold
        · exact absurd rfl hold
        · next hany => exact if_neg hany
      have vp := v.place p.link.data hs hp
      obtain ⟨v', hn, added, perm, sub⟩ := ih vp (by simpa using hs) (by simpa using hps)
      rw [hnew]
      refine ⟨v', by simpa using hn, handed start p :: added, ?_, sub.cons_cons _⟩
      have hplace := (v.arrows_place start p.link.target p.link.data).append_right added
      exact perm.trans (by simpa [handed] using hplace)

theorem arrows_removeNode (w : Wiring) (id : String) :
    (w.removeNode id).arrows = w.arrows.filter fun a => a.source ≠ id ∧ a.target ≠ id := by
  unfold arrows
  rw [placed_removeNode, List.filter_map]
  rfl

/-- The connections that folding a region leaves as they are. -/
def spared (w : Wiring) (start stop : String) : List Arrow :=
  (w.placed.filter fun p =>
    p ∉ (w.paths start stop).flatten ∧ p.link.source ∉ stop :: w.between start stop ∧
      p.link.target ∉ stop :: w.between start stop).map PlacedLink.arrow

theorem arrows_cleared_filter (w : Wiring) (start stop : String) :
    ((w.cleared start stop).arrows.filter fun a => a.source ≠ stop ∧ a.target ≠ stop) =
      w.spared start stop := by
  unfold arrows spared
  rw [placed_cleared, List.filter_map, List.filter_filter]
  congr 1
  refine List.filter_congr fun p _ => ?_
  simp only [Function.comp, PlacedLink.arrow, List.mem_cons, not_or, Bool.decide_and]
  grind

/-- What is left when the region between two nodes has been folded into the first. -/
structure Folds (w : Wiring) (start stop : String) (w' : Wiring) : Prop where
  valid : w'.Valid
  nodes : w'.nodes = w.nodes.filter (· ∉ stop :: w.between start stop)
  arrows : ∃ added, w'.arrows.Perm (w.spared start stop ++ added) ∧
    added.Sublist ((w.outgoing stop).map (handed start))

/-- Folding a region that some path crosses. -/
theorem Valid.folds {w w' : Wiring} (v : w.Valid) {start stop : String}
    (h : w.compress start stop = .ok w') : w.Folds start stop w' := by
  obtain ⟨-, rfl⟩ := eq_of_compress h
  have vc := v.cleared start stop
  have hnodes := v.nodes_cleared start stop
  obtain ⟨v', hn, added, perm, sub⟩ :=
    vc.relink (v.start_mem_cleared (mem_of_compress h).1 stop) fun p hp =>
      vc.target p (mem_outgoing.mp hp).1
  refine ⟨v'.removeNode stop, ?_, added.filter fun a => a.source ≠ stop ∧ a.target ≠ stop, ?_, ?_⟩
  · rw [nodes_removeNode, hn, vc.nodup.erase_eq_filter, hnodes, List.filter_filter]
    refine List.filter_congr fun id _ => ?_
    by_cases he : id = stop <;> simp [he]
  · rw [arrows_removeNode, ← arrows_cleared_filter, ← List.filter_append]
    exact perm.filter _
  · refine List.filter_sublist.trans (sub.trans (List.Sublist.map _ ?_))
    unfold outgoing
    rw [placed_cleared]
    exact List.filter_sublist.filter _

/-- A fold makes no connections but those that the last node hands to the first. -/
theorem Folds.mem_arrows {w w' : Wiring} {start stop : String} {a : Arrow}
    (f : w.Folds start stop w') (h : a ∈ w'.arrows) :
    a ∈ w.arrows ∨ ∃ p ∈ w.outgoing stop, a = handed start p := by
  obtain ⟨added, perm, sub⟩ := f.arrows
  rcases List.mem_append.mp (perm.mem_iff.mp h) with h | h
  · obtain ⟨p, hp, rfl⟩ := List.mem_map.mp h
    exact .inl (List.mem_map_of_mem (List.mem_filter.mp hp).1)
  · obtain ⟨p, hp, rfl⟩ := List.mem_map.mp (sub.subset h)
    exact .inr ⟨p, hp, rfl⟩

theorem joined_iff {w : Wiring} {a b : String} :
    w.Joined a b ↔ ∃ x ∈ w.arrows, x.source = a ∧ x.target = b := by
  constructor
  · rintro ⟨p, hp, rfl, rfl⟩
    exact ⟨p.arrow, List.mem_map_of_mem hp, rfl, rfl⟩
  · rintro ⟨x, hx, rfl, rfl⟩
    obtain ⟨p, hp, rfl⟩ := List.mem_map.mp hx
    exact ⟨p, hp, rfl, rfl⟩

/-- What is joined after a fold was joined before, or is the first node and what the last one was
joined to. -/
theorem Folds.joined {w w' : Wiring} {start stop a b : String} (f : w.Folds start stop w')
    (h : w'.Joined a b) : w.Joined a b ∨ a = start ∧ w.Joined stop b := by
  obtain ⟨x, hx, rfl, rfl⟩ := joined_iff.mp h
  rcases f.mem_arrows hx with hx | ⟨p, hp, rfl⟩
  · exact .inl (joined_iff.mpr ⟨x, hx, rfl, rfl⟩)
  · obtain ⟨hp, hstop⟩ := mem_outgoing.mp hp
    exact .inr ⟨rfl, p, hp, hstop, rfl⟩

theorem Folds.mem_nodes {w w' : Wiring} {start stop id : String} (f : w.Folds start stop w') :
    id ∈ w'.nodes ↔ id ∈ w.nodes ∧ id ≠ stop ∧ id ∉ w.between start stop := by
  rw [f.nodes, List.mem_filter]
  simp

/-! ## Grouping paths -/

theorem appendNew_append {α : Type} [DecidableEq α] (done more rest : List α) :
    appendNew done (more ++ rest) = appendNew (appendNew done more) rest :=
  List.foldl_append

/-- The paths whose first link has a key. -/
def keyed (paths : List (List PlacedLink)) (key : String) : List (List PlacedLink) :=
  paths.filter fun path => pathKey path = key

/-- Under each key stand the inner nodes of all paths with that key, each once. -/
theorem get?_group (stop : String) (paths : List (List PlacedLink)) (key : String) :
    (group stop paths).get? key =
      if keyed paths key = [] then none
      else some (appendNew [] ((keyed paths key).flatMap (inner stop))) := by
  have main : ∀ (paths : List (List PlacedLink)) (groups : Entries (List String)),
      Entries.get? (paths.foldl (fun groups path =>
        groups.insert (pathKey path)
          (appendNew ((groups.get? (pathKey path)).getD []) (inner stop path))) groups) key =
      if keyed paths key = [] then groups.get? key
      else some (appendNew ((groups.get? key).getD []) ((keyed paths key).flatMap (inner stop))) := by
    intro paths
    induction paths with
    | nil => intro groups; rfl
    | cons path paths ih =>
      intro groups
      rw [List.foldl_cons, ih, Entries.get?_insert]
      unfold keyed
      by_cases hk : key = pathKey path
      · subst hk
        rw [if_pos rfl, List.filter_cons_of_pos (by simp), List.flatMap_cons, appendNew_append]
        by_cases hrest : paths.filter (fun other => pathKey other = pathKey path) = []
        · rw [if_pos hrest, hrest]
          rfl
        · rw [if_neg hrest, if_neg (by simp)]
          rfl
      · rw [if_neg hk, List.filter_cons_of_neg (by simpa using Ne.symm hk)]
  exact main paths []

theorem nodup_keys_group (stop : String) (paths : List (List PlacedLink)) :
    (group stop paths).keys.Nodup := by
  have main : ∀ (paths : List (List PlacedLink)) (groups : Entries (List String)),
      groups.keys.Nodup →
      (Entries.keys (paths.foldl (fun groups path =>
        groups.insert (pathKey path)
          (appendNew ((groups.get? (pathKey path)).getD []) (inner stop path))) groups)).Nodup := by
    intro paths
    induction paths with
    | nil => exact fun _ h => h
    | cons path paths ih => exact fun groups h => ih _ (Entries.nodup_keys_insert h _ _)
  exact main paths [] .nil

/-- The bodies of a block hold nodes between its ends. -/
theorem mem_between_of_mem_group {w : Wiring} {start stop id : String} {body : List String}
    (hbody : body ∈ (group stop (w.paths start stop)).values) (hid : id ∈ body) :
    id ∈ w.between start stop := by
  obtain ⟨key, hkey⟩ := (Entries.mem_values_iff (nodup_keys_group stop _) body).mp hbody
  rw [get?_group] at hkey
  split at hkey
  · cases hkey
  · obtain rfl := Option.some.inj hkey
    have hid : id ∈ (keyed (w.paths start stop) key).flatMap (inner stop) := by
      simpa [mem_appendNew] using hid
    obtain ⟨path, hpath, hin⟩ := List.mem_flatMap.mp hid
    exact List.mem_flatMap.mpr ⟨path, (List.mem_filter.mp hpath).1, hin⟩

/-! ## Wirings as they are built -/

/-- Wirings that come about by adding nodes and links and by folding regions. -/
inductive Built : Wiring → Prop
  | empty : Built {}
  | addNode {w : Wiring} (built : Built w) (id : String) : Built (w.addNode id)
  | addLink {w : Wiring} (built : Built w) (source target : String) (data : LinkData) :
      Built (w.addLink source target data)
  | compress {w w' : Wiring} (built : Built w) {start stop : String}
      (fold : w.compress start stop = .ok w') : Built w'

theorem Built.valid {w : Wiring} (built : w.Built) : w.Valid := by
  induction built with
  | empty => exact valid_empty
  | addNode _ id ih => exact ih.addNode id
  | addLink _ source target data ih => exact ih.addLink source target data
  | compress _ fold ih => exact (ih.folds fold).valid

end Wiring

end WorkflowCompiler
