import WorkflowCompiler.Proofs.Library.References

/-!
# Cloning is exact

Cloning succeeds just when every app that is reached has a row, no reference leads back to where it
came from, and no chain of references is longer than the bound. Then it has copied the rows of all
apps that are reached; whichever way it ends, it has saved nothing but copies of such rows.
-/
namespace WorkflowCompiler

namespace Library

open Step Relation

/-- Whether a workflow is the copy of a row that an app reaches. -/
def IsCopy (library : Library) (source target : GraphVersion) (root : String) (copy : Workflow) :
    Prop :=
  ∃ row : Workflow, ReflTransGen (library.Refers source) root row.appId ∧
    library.lookup row.appId source = .ok (some row) ∧ copy = { row with version := target }

variable {library : Library} {source target : GraphVersion} {root : String} {copies : List Workflow}

theorem IsCopy.unique {copy other : Workflow} (h : library.IsCopy source target root copy)
    (h' : library.IsCopy source target root other) (same : copy.appId = other.appId) :
    copy = other := by
  obtain ⟨row, -, hrow, rfl⟩ := h
  obtain ⟨row', -, hrow', rfl⟩ := h'
  have same : row.appId = row'.appId := same
  rw [same, hrow'] at hrow
  rw [Option.some.inj (Except.ok.inj hrow)]

/-- Where a copy was saved, its row holds it. -/
theorem row?_saveAll_copy (h : ∀ copy ∈ copies, library.IsCopy source target root copy)
    {copy : Workflow} (mem : copy ∈ copies) :
    (library.saveAll copies).row? copy.appId target = some copy := by
  obtain ⟨last, hlast, happ, -, found⟩ := exists_row?_saveAll library mem
  rw [(h last hlast).unique (h copy mem) happ] at found
  obtain ⟨row, -, -, rfl⟩ := h copy mem
  exact found

/-- A copy into the version that it was made from is the row itself. -/
theorem IsCopy.row {copy : Workflow} (h : library.IsCopy source source root copy) :
    library.row? copy.appId copy.version = some copy := by
  obtain ⟨row, -, hrow, rfl⟩ := h
  obtain ⟨-, rfl⟩ := ids_of_lookup hrow
  exact (lookup_eq_ok.mp hrow).2

/-- Copies into the version that they are made from change nothing. -/
theorem saveAll_copies_eq_self (h : ∀ copy ∈ copies, library.IsCopy source source root copy) :
    library.saveAll copies = library := by
  induction copies with
  | nil => rfl
  | cons copy rest ih =>
    obtain ⟨first, rest⟩ := List.forall_mem_cons.mp h
    have same : library.saveAll [copy] = library := by
      show { library with rows := put library.rows copy } = library
      rw [put_eq_self first.row]
    rw [← List.singleton_append, saveAll_append, same]
    exact ih rest

/-- Copies leave the rows that are copied as they are. -/
theorem row?_saveAll_copies (h : ∀ copy ∈ copies, library.IsCopy source target root copy)
    (id : String) : (library.saveAll copies).row? id source = library.row? id source := by
  by_cases same : target = source
  · subst same
    rw [saveAll_copies_eq_self h]
  · refine row?_saveAll_of_none fun copy hcopy => Bool.eq_false_iff.mpr fun row => same ?_
    obtain ⟨_, -, -, rfl⟩ := h copy hcopy
    exact (isRow_iff.mp row).2

/-! ## The walk -/

/-- Whether the embedded graphs of all rows that an app reaches can be read. -/
def Readable (library : Library) (version : GraphVersion) (root : String) : Prop :=
  ∀ id row, ReflTransGen (library.Refers version) root id → library.row? id version = some row →
    ∀ node ∈ row.graph.nodes, node.holdsGraph = true → node.isApp = false →
      ∃ child?, node.embedded? = .ok child?

/-- What a walk has done below these ancestors: it has saved copies, and each app that it has
visited is either an ancestor at its level or has been copied after all that it refers to has been
visited. -/
structure Cloned (library : Library) (source target : GraphVersion) (maxDepth : Nat)
    (root : String) (ancestors : List String) (copies : List Workflow) (walk : Walk) : Prop where
  below : walk.ancestry.Below ancestors maxDepth
  saved : walk.library = library.saveAll copies
  onlyCopies : ∀ copy ∈ copies, library.IsCopy source target root copy
  visits : ∀ level id, (level, id) ∈ walk.ancestry.visits → level < maxDepth ∧
    (ancestors[level]? = some id ∨ (∃ copy ∈ copies, copy.appId = id) ∧
      ∀ child, library.Refers source id child → (level + 1, child) ∈ walk.ancestry.visits)

/-- A walk has gone on from `start` below these ancestors and has visited these apps there. -/
structure Visited (library : Library) (source target : GraphVersion) (maxDepth : Nat)
    (root : String) (ancestors : List String) (apps : Set String) (start walk : Walk) : Prop where
  cloned : ∃ copies, Cloned library source target maxDepth root ancestors copies walk
  kept : start.ancestry.visits ⊆ walk.ancestry.visits
  apps : ∀ app ∈ apps, (ancestors.length, app) ∈ walk.ancestry.visits

/-- A walk has failed, for which there was a reason, and has saved nothing but copies. -/
def Stuck (library : Library) (source target : GraphVersion) (maxDepth : Nat) (root : String)
    (walk : Walk) : Prop :=
  ¬ library.Clonable source maxDepth root ∧ ∃ copies, walk.library = library.saveAll copies ∧
    ∀ copy ∈ copies, library.IsCopy source target root copy

section Walks

variable {maxDepth : Nat} {ancestors : List String} {walk start mid : Walk} {app : String}

theorem Cloned.stuck (h : Cloned library source target maxDepth root ancestors copies start)
    (same : walk.library = start.library) (not : ¬ library.Clonable source maxDepth root) :
    Stuck library source target maxDepth root walk :=
  ⟨not, copies, same.trans h.saved, h.onlyCopies⟩

theorem Cloned.row? (h : Cloned library source target maxDepth root ancestors copies walk)
    (id : String) : walk.library.row? id source = library.row? id source := by
  rw [h.saved, row?_saveAll_copies h.onlyCopies]

theorem Cloned.visited (h : Cloned library source target maxDepth root ancestors copies walk) :
    Visited library source target maxDepth root ancestors ∅ walk walk :=
  ⟨⟨copies, h⟩, List.Subset.refl _, fun _ h => h.elim⟩

theorem Visited.trans {apps more : Set String}
    (h : Visited library source target maxDepth root ancestors apps start mid)
    (h' : Visited library source target maxDepth root ancestors more mid walk) :
    Visited library source target maxDepth root ancestors (apps ∪ more) start walk where
  cloned := h'.cloned
  kept := List.Subset.trans h.kept h'.kept
  apps := by
    rintro app (happ | happ)
    · exact h'.kept (h.apps app happ)
    · exact h'.apps app happ

theorem Visited.mono {apps fewer : Set String}
    (h : Visited library source target maxDepth root ancestors apps start walk)
    (sub : fewer ⊆ apps) : Visited library source target maxDepth root ancestors fewer start walk :=
  { h with apps := fun app happ => h.apps app (sub happ) }

theorem ensures_cloneNode {copyChild : String → WalkM Unit} {node : EditorNode}
    (cloned : Cloned library source target maxDepth root ancestors copies walk)
    (readable : node.holdsGraph = true → node.isApp = false →
      ∃ child?, node.embedded? = .ok child?)
    (child : node.IsReference → Ensures (copyChild node.childApp) walk
      (fun _ => Visited library source target maxDepth root ancestors {node.childApp} walk)
      fun _ => Stuck library source target maxDepth root) :
    Ensures (cloneNode copyChild ancestors.length node) walk
      (fun _ => Visited library source target maxDepth root ancestors
        (references [node]) walk)
      fun _ => Stuck library source target maxDepth root := by
  have none : ¬ node.IsReference → Visited library source target maxDepth root ancestors
      (references [node]) walk walk := fun not => cloned.visited.mono fun _ h => by
    obtain ⟨_, mem, reference, -⟩ := h
    exact absurd (List.mem_singleton.mp mem ▸ reference) not
  unfold cloneNode
  split
  · next holds =>
    simp only [Bool.and_eq_true, Bool.not_eq_true'] at holds
    refine ensures_lift_bind (fun child? embedded => ?_) fun e failed => ?_
    · cases child? with
      | some _ =>
        refine ensures_pure (none fun h => ?_)
        cases embedded.symm.trans h.embedded
      | none =>
        have reference : node.IsReference := ⟨holds.1, holds.2, embedded⟩
        refine ensures_get_bind ?_
        cases visited : walk.ancestry.visited ancestors.length node.childApp with
        | false =>
          simp only [Bool.not_false, if_true]
          refine (child reference).mono (fun _ t h => h.mono ?_) fun _ _ h => h
          rintro _ ⟨other, mem, -, rfl⟩
          rw [List.mem_singleton.mp mem]
          rfl
        | true =>
          simp only [Bool.not_true, Bool.false_eq_true, if_false]
          refine ensures_pure { cloned.visited with apps := ?_ }
          rintro _ ⟨other, mem, -, rfl⟩
          rw [List.mem_singleton.mp mem]
          simpa [Ancestry.visited] using visited
    · obtain ⟨_, read⟩ := readable holds.1 holds.2
      cases failed.symm.trans read
  · next holds =>
    refine ensures_pure (none fun h => holds ?_)
    rw [h.holdsGraph, h.isApp]
    rfl

/-- An app becomes an ancestor when it is visited. -/
theorem Cloned.enter (h : Cloned library source target maxDepth root ancestors copies start)
    (same : walk.library = start.library)
    (below : walk.ancestry.Below (ancestors ++ [app]) maxDepth)
    (room : ancestors.length < maxDepth)
    (visits : walk.ancestry.visits = (ancestors.length, app) :: start.ancestry.visits) :
    Cloned library source target maxDepth root (ancestors ++ [app]) copies walk where
  below := below
  saved := same.trans h.saved
  onlyCopies := h.onlyCopies
  visits := by
    intro level id mem
    rw [visits] at mem ⊢
    rcases List.mem_cons.mp mem with heq | mem
    · obtain ⟨rfl, rfl⟩ := Prod.mk.inj heq
      exact ⟨room, .inl (by simp)⟩
    · obtain ⟨low, ancestor | ⟨copied, children⟩⟩ := h.visits level id mem
      · refine ⟨low, .inl ?_⟩
        rw [List.getElem?_append_left (List.getElem?_eq_some_iff.mp ancestor).1, ancestor]
      · exact ⟨low, .inr ⟨copied, fun child refers => List.mem_cons_of_mem _ (children child refers)⟩⟩

/-- An app is copied when all that it refers to has been visited. -/
theorem Cloned.leave {row : Workflow}
    (h : Cloned library source target maxDepth root (ancestors ++ [app]) copies walk)
    (reached : ReflTransGen (library.Refers source) root app)
    (found : library.lookup app source = .ok (some row))
    (children : ∀ child, library.Refers source app child →
      (ancestors.length + 1, child) ∈ walk.ancestry.visits) :
    Cloned library source target maxDepth root ancestors (copies ++ [{ row with version := target }])
      { walk with library := walk.library.saveAll [{ row with version := target }] } where
  below := h.below.above
  saved := by
    rw [saveAll_append, ← h.saved]
  onlyCopies := by
    refine List.forall_mem_append.mpr ⟨h.onlyCopies, List.forall_mem_singleton.mpr ?_⟩
    obtain ⟨rfl, -⟩ := ids_of_lookup found
    exact ⟨row, reached, found, rfl⟩
  visits := by
    intro level id mem
    obtain ⟨low, ancestor | ⟨⟨copy, hcopy, happ⟩, below⟩⟩ := h.visits level id mem
    · refine ⟨low, ?_⟩
      by_cases inside : level < ancestors.length
      · exact .inl (by rwa [List.getElem?_append_left inside] at ancestor)
      · rw [List.getElem?_append_right (Nat.le_of_not_lt inside),
          List.getElem?_singleton] at ancestor
        split at ancestor
        · next last =>
          obtain rfl := Option.some.inj ancestor
          obtain rfl : level = ancestors.length := by omega
          exact .inr ⟨⟨_, List.mem_concat_self, (ids_of_lookup found).1⟩, children⟩
        · cases ancestor
    · exact ⟨low, .inr ⟨⟨copy, List.mem_append_left _ hcopy, happ⟩, below⟩⟩

theorem Cloned.ensures_visit (line : Line library source root ancestors app)
    (h : Cloned library source target maxDepth root ancestors copies walk) :
    Ensures (visit ancestors.length app) walk
      (fun _ t => Cloned library source target maxDepth root (ancestors ++ [app]) copies t ∧
        t.ancestry.visits = (ancestors.length, app) :: walk.ancestry.visits)
      fun _ => Stuck library source target maxDepth root := by
  refine Library.ensures_visit h.below ?_ ?_
  · intro _ room t same below visits
    exact ⟨h.enter same below room visits, visits⟩
  · rintro none e t same
    refine h.stuck same fun clonable => ?_
    rcases none with cycle | deep
    · exact line.not_mem clonable cycle
    · exact Nat.not_lt.mpr deep (line.length_lt clonable)

theorem Cloned.ensures_loadRow (reached : ReflTransGen (library.Refers source) root app)
    (h : Cloned library source target maxDepth root ancestors copies walk) :
    Ensures (loadRow app source) walk
      (fun row t => t = walk ∧ library.lookup app source = .ok (some row))
      fun _ => Stuck library source target maxDepth root := by
  refine Library.ensures_loadRow ?_ ?_
  · intro row outage found
    rw [h.row?] at found
    rw [h.saved] at outage
    exact ⟨rfl, lookup_eq_ok.mpr ⟨outage, found⟩⟩
  · rintro e none
    refine h.stuck rfl fun clonable => ?_
    obtain ⟨row, found⟩ := clonable.rows app reached
    obtain ⟨outage, found⟩ := lookup_eq_ok.mp found
    rcases none with down | missing
    · rw [h.saved, outage_saveAll, outage] at down
      cases down
    · cases (missing.symm.trans (h.row? app)).trans found

/-- Once all nodes of a row are done, all that the row refers to has been visited. -/
theorem ensures_cloneNodes {copyChild : String → WalkM Unit} {row : Workflow}
    (readable : ∀ node ∈ row.graph.nodes, node.holdsGraph = true → node.isApp = false →
      ∃ child?, node.embedded? = .ok child?)
    (cloned : Cloned library source target maxDepth root ancestors copies walk)
    (children : ∀ child copies (t : Walk), child ∈ references row.graph.nodes →
      Cloned library source target maxDepth root ancestors copies t →
      Ensures (copyChild child) t
        (fun _ => Visited library source target maxDepth root ancestors {child} t)
        fun _ => Stuck library source target maxDepth root) :
    Ensures (row.graph.nodes.forM (cloneNode copyChild ancestors.length)) walk
      (fun _ => Visited library source target maxDepth root ancestors
        (references row.graph.nodes) walk)
      fun _ => Stuck library source target maxDepth root := by
  refine ensures_forM (fun done => Visited library source target maxDepth root ancestors
    (references done) walk) ?_ (cloned.visited.mono ?_)
  · intro before node after t parts done
    obtain ⟨copies, cloned⟩ := done.cloned
    have mem : node ∈ row.graph.nodes := parts ▸ List.mem_append_right _ List.mem_cons_self
    refine (ensures_cloneNode cloned (readable node mem)
      fun reference => children _ copies t ⟨node, mem, reference, rfl⟩ cloned).mono
      (fun _ u h => (done.trans h).mono ?_) fun _ _ h => h
    rintro child ⟨other, hother, reference⟩
    rcases List.mem_append.mp hother with hother | hother
    · exact .inl ⟨other, hother, reference⟩
    · exact .inr ⟨other, hother, reference⟩
  · rintro _ ⟨_, mem, -⟩
    cases mem

theorem ensures_cloneRow {copyChild : String → WalkM Unit}
    (readable : library.Readable source root)
    (line : Line library source root ancestors app)
    (cloned : Cloned library source target maxDepth root ancestors copies walk)
    (children : ∀ child copies (t : Walk), library.Refers source app child →
      Cloned library source target maxDepth root (ancestors ++ [app]) copies t →
      Ensures (copyChild child) t
        (fun _ => Visited library source target maxDepth root (ancestors ++ [app]) {child} t)
        fun _ => Stuck library source target maxDepth root) :
    Ensures (cloneRow source target copyChild app ancestors.length) walk
      (fun _ => Visited library source target maxDepth root ancestors {app} walk)
      fun _ => Stuck library source target maxDepth root := by
  unfold cloneRow
  refine (cloned.ensures_visit line).bind ?_
  rintro _ start ⟨cloned, visits⟩
  refine (cloned.ensures_loadRow line.reached).bind ?_
  rintro row start ⟨rfl, found⟩
  obtain ⟨outage, stored⟩ := lookup_eq_ok.mp found
  have deeper : (ancestors ++ [app]).length = ancestors.length + 1 := by simp
  have looped := ensures_cloneNodes (readable app row line.reached stored) cloned
    fun child copies t refers => children child copies t ⟨row, stored, refers⟩
  rw [deeper] at looped
  refine looped.bind fun _ t visited => ?_
  obtain ⟨copies, cloned⟩ := visited.cloned
  have kept : (ancestors.length, app) :: walk.ancestry.visits ⊆ t.ancestry.visits :=
    visits ▸ visited.kept
  have left := cloned.leave line.reached found fun child refers => by
    obtain ⟨other, hother, named⟩ := refers
    obtain rfl := Option.some.inj (stored.symm.trans hother)
    exact deeper ▸ visited.apps child named
  obtain ⟨rfl, -⟩ := ids_of_lookup found
  refine ensures_saveRow (fun _ => ⟨⟨_, left⟩, ?_, ?_⟩) fun e down => ?_
  · exact fun e he => kept (List.mem_cons_of_mem _ he)
  · rintro _ rfl
    exact kept List.mem_cons_self
  · rw [cloned.saved, outage_saveAll, outage] at down
    cases down

theorem ensures_cloneLevel {room : Nat} (readable : library.Readable source root)
    (line : Line library source root ancestors app) (enough : room + ancestors.length = maxDepth)
    (cloned : Cloned library source target maxDepth root ancestors copies walk) :
    Ensures (cloneLevel source target room app ancestors.length) walk
      (fun _ => Visited library source target maxDepth root ancestors {app} walk)
      fun _ => Stuck library source target maxDepth root := by
  induction room generalizing ancestors app copies walk with
  | zero =>
    refine ensures_cloneRow readable line cloned fun child copies t refers cloned => ?_
    refine ensures_throw (cloned.stuck rfl fun clonable => ?_)
    have low := (line.next refers).length_lt clonable
    rw [List.length_append] at low
    omega
  | succ room ih =>
    refine ensures_cloneRow readable line cloned fun child copies t refers cloned => ?_
    have deeper : ancestors.length + 1 = (ancestors ++ [app]).length := by simp
    rw [deeper]
    exact ih (line.next refers) (by omega) cloned

end Walks

/-- After a walk that has left all ancestors, what it has visited is closed under references. -/
theorem Cloned.levelled {maxDepth : Nat} {walk : Walk}
    (h : Cloned library source target maxDepth root [] copies walk) :
    library.Levelled source maxDepth walk.ancestry.visits := by
  intro level id mem
  obtain ⟨low, ancestor | ⟨⟨copy, hcopy, rfl⟩, children⟩⟩ := h.visits level id mem
  · cases ancestor
  · obtain ⟨row, -, found, rfl⟩ := h.onlyCopies copy hcopy
    exact ⟨low, ⟨row, found⟩, children⟩

/-- Whichever way cloning ends, all that it has done is to save copies. -/
theorem exists_copies (target : GraphVersion) (maxDepth : Nat)
    (readable : library.Readable source root) :
    ∃ copies, (library.clone root source target maxDepth).2 = library.saveAll copies ∧
      (∀ copy ∈ copies, library.IsCopy source target root copy) ∧
      (∀ done, (library.clone root source target maxDepth).1 = .ok done →
        library.Clonable source maxDepth root ∧
        ∀ id, ReflTransGen (library.Refers source) root id → ∃ copy ∈ copies, copy.appId = id) ∧
      ∀ e, (library.clone root source target maxDepth).1 = .error e →
        ¬ library.Clonable source maxDepth root := by
  have start : Cloned library source target maxDepth root [] [] ⟨{ maxDepth }, library⟩ :=
    ⟨Ancestry.below_start, rfl, by simp, by simp⟩
  obtain ⟨walk, after, cloned, stuck⟩ :=
    exists_walk (ensures_cloneLevel readable line_start (Nat.add_zero maxDepth) start)
  have same : library.walk maxDepth (cloneLevel source target maxDepth root ([] : List String).length) =
      library.clone root source target maxDepth := rfl
  rw [same] at after cloned stuck
  cases result : (library.clone root source target maxDepth).1 with
  | ok done =>
    have visited := cloned done result
    obtain ⟨copies, cloned⟩ := visited.cloned
    have levelled := cloned.levelled
    have first := visited.apps root rfl
    refine ⟨copies, after.trans cloned.saved, cloned.onlyCopies, fun _ _ =>
      ⟨levelled.clonable first, fun id reached => ?_⟩, nofun⟩
    obtain ⟨level, mem⟩ := levelled.reached first reached
    obtain ⟨-, ancestor | ⟨copied, -⟩⟩ := cloned.visits level id mem
    · cases ancestor
    · exact copied
  | error e =>
    obtain ⟨not, copies, saved, onlyCopies⟩ := stuck e result
    exact ⟨copies, after.trans saved, onlyCopies, nofun, fun _ _ => not⟩

/-- Cloning succeeds just when all rows that the app reaches are there and lie on no cycle and on no
chain that is too long. Then all of them have been copied. Whichever way it ends, nothing has
changed but rows that now hold copies, and nothing at all when the versions are the same. -/
theorem clone_copies_reached_rows (library : Library) (app : String) (source target : GraphVersion)
    (maxDepth : Nat) (readable : library.Readable source app) :
    ((library.clone app source target maxDepth).1 = .ok () ↔
      library.Clonable source maxDepth app) ∧
    ((library.clone app source target maxDepth).1 = .ok () →
      ∀ id, ReflTransGen (library.Refers source) app id →
        ∃ row, library.row? id source = some row ∧
          (library.clone app source target maxDepth).2.row? id target =
            some { row with version := target }) ∧
    (∀ id version,
      (library.clone app source target maxDepth).2.row? id version ≠ library.row? id version →
        version = target ∧ ReflTransGen (library.Refers source) app id ∧
        ∃ row, library.row? id source = some row ∧
          (library.clone app source target maxDepth).2.row? id target =
            some { row with version := target }) ∧
    (source = target → (library.clone app source target maxDepth).2 = library) := by
  obtain ⟨copies, after, onlyCopies, success, failure⟩ :=
    exists_copies target maxDepth readable
  have holds : ∀ copy ∈ copies, ∃ row, library.row? copy.appId source = some row ∧
      (library.clone app source target maxDepth).2.row? copy.appId target =
        some { row with version := target } := by
    intro copy mem
    obtain ⟨row, -, found, heq⟩ := onlyCopies copy mem
    refine ⟨row, ?_, ?_⟩
    · rw [heq]
      exact (lookup_eq_ok.mp found).2
    · rw [after, row?_saveAll_copy onlyCopies mem, heq]
  refine ⟨⟨fun done => (success () done).1, fun clonable => ?_⟩, fun done id reached => ?_,
    fun id version changed => ?_, ?_⟩
  · cases result : (library.clone app source target maxDepth).1 with
    | ok done => rfl
    | error e => exact absurd clonable (failure e result)
  · obtain ⟨-, copied⟩ := success () done
    obtain ⟨copy, mem, rfl⟩ := copied id reached
    exact holds copy mem
  · rw [after] at changed
    obtain ⟨copy, mem, rfl, rfl⟩ := exists_of_row?_ne changed
    obtain ⟨row, reached, -, heq⟩ := onlyCopies copy mem
    have reached : ReflTransGen (library.Refers source) app copy.appId := heq ▸ reached
    exact ⟨heq ▸ rfl, reached, holds copy mem⟩
  · rintro rfl
    rw [after, saveAll_copies_eq_self onlyCopies]

/-- Two references lead to the same row at the same level. -/
def diamond : Library :=
  let reference := fun app => { id := app, data := [("type", .string "subgraph")] }
  .ofList
    [ ⟨"top", .draft, { nodes := [reference "left", reference "right"] }⟩,
      ⟨"left", .draft, { nodes := [reference "bottom"] }⟩,
      ⟨"right", .draft, { nodes := [reference "bottom"] }⟩,
      ⟨"bottom", .draft, {}⟩ ]

theorem clone_copies_reached_rows_diamond :
    diamond.Readable .draft "top" ∧ diamond.Clonable .draft 3 "top" ∧
      ¬ diamond.Clonable .draft 2 "top" ∧
      (diamond.clone "top" .draft .publish 3).2.row? "bottom" .publish =
        some ⟨"bottom", .publish, {}⟩ := by
  have readable : diamond.Readable .draft "top" := by
    intro id row _ found node mem _ _
    have plain : ∀ row ∈ diamond.rows, ∀ node ∈ row.graph.nodes, node.embedded? = .ok none := by
      decide
    exact ⟨none, plain row (List.mem_of_find?_eq_some found) node mem⟩
  obtain ⟨enough, -⟩ := clone_copies_reached_rows diamond "top" .draft .publish 3 readable
  obtain ⟨short, -⟩ := clone_copies_reached_rows diamond "top" .draft .publish 2 readable
  refine ⟨readable, enough.mp (by decide +kernel), fun clonable => ?_, by decide +kernel⟩
  have failed : (diamond.clone "top" .draft .publish 2).1 ≠ .ok () := by decide +kernel
  exact failed (short.mpr clonable)

end Library

end WorkflowCompiler
