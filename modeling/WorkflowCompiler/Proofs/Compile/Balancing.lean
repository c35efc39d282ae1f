import Mathlib.Data.List.Basic
import WorkflowCompiler.Proofs.Compile.Brackets

/-!
# Balanced brackets

Forks and aggregators are matched like the words of a grammar. While ids are read, the open forks
are those that no aggregator read so far closes, with balanced words between them. So matching
succeeds on balanced words and on no others, and what it finds, written out again, is what was read.
-/
namespace WorkflowCompiler

namespace Block

/-- The words that the grammar of brackets generates. -/
inductive Balanced : List Bracket → Prop
  | nil : Balanced []
  | wrap {inside after : List Bracket} (within : Balanced inside) (behind : Balanced after) :
      Balanced (.opening :: (inside ++ .closing :: after))

namespace Balanced

variable {word other : List Bracket}

theorem append (h : Balanced word) (h' : Balanced other) : Balanced (word ++ other) := by
  induction h with
  | nil => exact h'
  | @wrap inside after within _ _ ih =>
    rw [List.cons_append, List.append_assoc, List.cons_append]
    exact .wrap within ih

theorem count_eq (h : Balanced word) : word.count .closing = word.count .opening := by
  induction h with
  | nil => rfl
  | wrap _ _ ih ih' =>
    simp only [List.count_cons, List.count_append, ih, ih', beq_iff_eq, reduceCtorEq, if_false,
      if_true]
    omega

/-- No front part of a balanced word closes more than it opens. -/
theorem count_le (h : Balanced word) {front rest : List Bracket} (hw : word = front ++ rest) :
    front.count .closing ≤ front.count .opening := by
  induction h generalizing front rest with
  | nil =>
    obtain ⟨rfl, -⟩ := List.append_eq_nil_iff.mp hw.symm
    simp
  | @wrap inside after within _ ih ih' =>
    obtain ⟨rfl, -⟩ | ⟨front, rfl, htail⟩ := List.cons_eq_append_iff.mp hw
    · simp
    have hsame := within.count_eq
    obtain ⟨more, rfl, hmore⟩ | ⟨more, rfl, hmore⟩ := List.append_eq_append_iff.mp htail
    · obtain ⟨rfl, -⟩ | ⟨more, rfl, hafter⟩ := List.cons_eq_append_iff.mp hmore
      · simp [hsame]
      · have hle := ih' hafter
        simp only [List.count_cons, List.count_append, beq_iff_eq, reduceCtorEq, if_false, if_true]
        omega
    · have hle := ih rfl
      simp only [List.count_cons, beq_iff_eq, reduceCtorEq, if_false, if_true]
      omega

/-- In a balanced word every bracket that is opened is closed. -/
theorem closed (h : Balanced word) {front rest : List Bracket}
    (hw : word = front ++ .opening :: rest) :
    ∃ inside after, rest = inside ++ .closing :: after ∧ Balanced inside := by
  induction h generalizing front rest with
  | nil => simp at hw
  | @wrap inside after within _ ih ih' =>
    obtain ⟨rfl, hall⟩ | ⟨front, rfl, htail⟩ := List.cons_eq_append_iff.mp hw
    · obtain rfl := (List.cons.inj hall).2
      exact ⟨inside, after, rfl, within⟩
    obtain ⟨more, rfl, hmore⟩ | ⟨more, rfl, hmore⟩ := List.append_eq_append_iff.mp htail
    · -- the bracket is opened behind what is wrapped
      obtain ⟨-, hnone⟩ | ⟨more, rfl, hafter⟩ := List.cons_eq_append_iff.mp hmore
      · simp at hnone
      · exact ih' hafter
    · obtain ⟨-, hnone⟩ | ⟨more, rfl, hinside⟩ := List.cons_eq_append_iff.mp hmore
      · simp at hnone
      · obtain ⟨closes, behind, rfl, balanced⟩ := ih rfl
        exact ⟨closes, behind ++ .closing :: after, by simp [hinside], balanced⟩

end Balanced

/-! ## Ids -/

section Reading

variable {registry : Registry}

/-- The brackets that ids are, in order. -/
def word (registry : Registry) (ids : List String) : List Bracket :=
  ids.filterMap (bracket? registry)

/-- The registered forks and aggregators among ids. -/
def bracketIds (registry : Registry) (ids : List String) : List String :=
  ids.filter fun id => (bracket? registry id).isSome

theorem word_append (ids more : List String) :
    word registry (ids ++ more) = word registry ids ++ word registry more :=
  List.filterMap_append

theorem word_cons {id : String} {b : Bracket} (h : bracket? registry id = some b)
    (ids : List String) : word registry (id :: ids) = b :: word registry ids :=
  List.filterMap_cons_some h

theorem word_single {id : String} {b : Bracket} (h : bracket? registry id = some b) :
    word registry [id] = [b] := word_cons h []

/-- One of these ids is the aggregator that closes what was open in front of them. -/
def Closes (registry : Registry) (ids : List String) : Prop :=
  ∃ inside stop after, ids = inside ++ stop :: after ∧ bracket? registry stop = some .closing ∧
    Balanced (word registry inside)

/-- An aggregator behind which more has been closed than opened, and the first one. -/
def Overcloses (registry : Registry) (order : List String) (id : String) : Prop :=
  ∃ front rest, order = front ++ id :: rest ∧ bracket? registry id = some .closing ∧
    (word registry (front ++ [id])).count .opening < (word registry (front ++ [id])).count .closing ∧
    ∀ part, part <+: front →
      (word registry part).count .closing ≤ (word registry part).count .opening

/-- A fork that is never closed, and the last one that is opened of those. -/
def LeavesOpen (registry : Registry) (order : List String) (id : String) : Prop :=
  ∃ front rest, order = front ++ id :: rest ∧ bracket? registry id = some .opening ∧
    ¬ Closes registry rest ∧
    ∀ front' id' rest', rest = front' ++ id' :: rest' → bracket? registry id' = some .opening →
      Closes registry rest'

theorem closes_of_word {ids : List String} {inside after : List Bracket}
    (h : word registry ids = inside ++ .closing :: after) (balanced : Balanced inside) :
    Closes registry ids := by
  obtain ⟨front, rest, rfl, hfront, hrest⟩ := List.filterMap_eq_append_iff.mp h
  obtain ⟨plain, stop, behind, rfl, hplain, hstop, -⟩ := List.filterMap_eq_cons_iff.mp hrest
  refine ⟨front ++ plain, stop, behind, by simp, hstop, ?_⟩
  have hnone : word registry plain = [] := List.filterMap_eq_nil_iff.mpr hplain
  have hword : word registry front = inside := hfront
  rwa [word_append, hnone, List.append_nil, hword]

/-- Among balanced ids every fork is closed. -/
theorem closes_behind {ids front rest : List String} {id : String}
    (balanced : Balanced (word registry ids)) (h : ids = front ++ id :: rest)
    (opening : bracket? registry id = some .opening) : Closes registry rest := by
  have hword : word registry ids = word registry front ++ .opening :: word registry rest := by
    rw [h, word_append, word_cons opening]
  obtain ⟨inside, after, hrest, hinside⟩ := balanced.closed hword
  exact closes_of_word hrest hinside

theorem count_le_of_prefix {ids part : List String} (balanced : Balanced (word registry ids))
    (h : part <+: ids) :
    (word registry part).count .closing ≤ (word registry part).count .opening := by
  obtain ⟨rest, rfl⟩ := h
  exact balanced.count_le (word_append part rest)

/-- Balanced ids close nothing that was open in front of them. -/
theorem not_closes {ids : List String} (balanced : Balanced (word registry ids)) :
    ¬ Closes registry ids := by
  rintro ⟨inside, stop, after, rfl, closing, hinside⟩
  have hpart : inside ++ [stop] <+: inside ++ stop :: after := ⟨after, by simp⟩
  have hle := count_le_of_prefix balanced hpart
  rw [word_append, word_single closing, List.count_append, List.count_append,
    hinside.count_eq] at hle
  simp only [List.count_singleton, beq_iff_eq, reduceCtorEq, if_false, if_true] at hle
  omega

/-! ## Open forks -/

/-- These forks are open behind ids, the innermost first. What stands between them is balanced. -/
inductive Pending (registry : Registry) : List String → List String → Prop
  | settled {ids : List String} (balanced : Balanced (word registry ids)) : Pending registry [] ids
  | opened {outer front inside : List String} {start : String} (h : Pending registry outer front)
      (opening : bracket? registry start = some .opening)
      (balanced : Balanced (word registry inside)) :
      Pending registry (start :: outer) (front ++ start :: inside)

namespace Pending

variable {forks ids : List String} {id : String}

theorem extend (h : Pending registry forks ids) {more : List String}
    (balanced : Balanced (word registry more)) : Pending registry forks (ids ++ more) := by
  cases h with
  | settled before => exact .settled (word_append _ _ ▸ before.append balanced)
  | opened outer opening before =>
    rw [List.append_assoc, List.cons_append]
    exact outer.opened opening (word_append _ _ ▸ before.append balanced)

theorem pass (h : Pending registry forks ids) (none : bracket? registry id = none) :
    Pending registry forks (ids ++ [id]) := by
  refine h.extend ?_
  rw [word, List.filterMap_cons_none none]
  exact .nil

theorem push (h : Pending registry forks ids) (opening : bracket? registry id = some .opening) :
    Pending registry (id :: forks) (ids ++ [id]) := h.opened opening .nil

theorem pop {start : String} (h : Pending registry (start :: forks) ids)
    (closing : bracket? registry id = some .closing) : Pending registry forks (ids ++ [id]) := by
  cases h with
  | @opened _ front inside _ outer opening balanced =>
    have hblock : Balanced (word registry (start :: (inside ++ [id]))) := by
      rw [word_cons opening, word_append, word_single closing]
      exact .wrap balanced .nil
    simpa using outer.extend hblock

/-- As long as forks are open or all are settled, no more has been closed than opened. -/
theorem count_le (h : Pending registry forks ids) {part : List String} (hp : part <+: ids) :
    (word registry part).count .closing ≤ (word registry part).count .opening := by
  induction h generalizing part with
  | settled balanced => exact count_le_of_prefix balanced hp
  | @opened outer front inside start _ opening balanced ih =>
    obtain ⟨rest, hrest⟩ := hp
    obtain ⟨more, hfront, -⟩ | ⟨more, rfl, hmore⟩ := List.append_eq_append_iff.mp hrest
    · exact ih ⟨more, hfront.symm⟩
    have hwhole := ih (List.prefix_refl front)
    obtain ⟨rfl, -⟩ | ⟨more, rfl, hinside⟩ := List.cons_eq_append_iff.mp hmore
    · simpa using hwhole
    · have hin := count_le_of_prefix balanced ⟨rest, hinside.symm⟩
      rw [word_append, word_cons opening, List.count_append, List.count_append]
      simp only [List.count_cons, beq_iff_eq, reduceCtorEq, if_false, if_true]
      omega

theorem overcloses (h : Pending registry [] ids) (closing : bracket? registry id = some .closing)
    (rest : List String) : Overcloses registry (ids ++ id :: rest) id := by
  refine ⟨ids, rest, rfl, closing, ?_, fun part hp => h.count_le hp⟩
  cases h with
  | settled balanced =>
    rw [word_append, word_single closing, List.count_append, List.count_append, balanced.count_eq]
    simp

theorem leavesOpen (h : Pending registry (id :: forks) ids) : LeavesOpen registry ids id := by
  cases h with
  | @opened _ front inside _ _ opening balanced =>
    exact ⟨front, inside, rfl, opening, not_closes balanced, fun _ _ _ he => closes_behind balanced he⟩

theorem not_overcloses (h : Pending registry forks ids) : ¬ Overcloses registry ids id := by
  rintro ⟨front, rest, rfl, -, hlt, -⟩
  have hpart : front ++ [id] <+: front ++ id :: rest := ⟨rest, by simp⟩
  have hle := h.count_le hpart
  omega

end Pending

/-! ## Blocks written out -/

mutual

/-- The forks and aggregators of a block: its fork, those of the blocks inside it, its aggregator. -/
def written : Block → List String
  | .mk start stop children => start :: (writtenAll children ++ [stop])

/-- The forks and aggregators of blocks. -/
def writtenAll : List Block → List String
  | [] => []
  | block :: rest => written block ++ writtenAll rest

end

theorem writtenAll_append (blocks more : List Block) :
    writtenAll (blocks ++ more) = writtenAll blocks ++ writtenAll more := by
  induction blocks with
  | nil => simp [writtenAll]
  | cons block blocks ih => simp [writtenAll, ih]

/-- What open blocks have taken in so far. -/
def writtenOpen (opened : List Opened) : List String :=
  opened.reverse.flatMap fun o => o.start :: writtenAll o.children

theorem writtenOpen_cons (o : Opened) (opened : List Opened) :
    writtenOpen (o :: opened) = writtenOpen opened ++ o.start :: writtenAll o.children := by
  simp [writtenOpen]

/-- Finished and open blocks account for the ids that have been read. -/
structure Reads (registry : Registry) (read : List String) (roots : List Block)
    (opened : List Opened) : Prop where
  pending : Pending registry (opened.map Opened.start) read
  written : writtenAll roots ++ writtenOpen opened = bracketIds registry read

namespace Reads

variable {read : List String} {roots : List Block} {opened : List Opened} {id : String}

theorem start (registry : Registry) : Reads registry [] [] [] := ⟨.settled .nil, rfl⟩

theorem pass (h : Reads registry read roots opened) (none : bracket? registry id = none) :
    Reads registry (read ++ [id]) roots opened where
  pending := h.pending.pass none
  written := by simp [h.written, bracketIds, none]

theorem push (h : Reads registry read roots opened)
    (opening : bracket? registry id = some .opening) :
    Reads registry (read ++ [id]) roots (⟨id, []⟩ :: opened) where
  pending := h.pending.push opening
  written := by
    rw [writtenOpen_cons, ← List.append_assoc, h.written]
    simp [bracketIds, opening, writtenAll]

theorem pop {o : Opened} (h : Reads registry read roots [o])
    (closing : bracket? registry id = some .closing) :
    Reads registry (read ++ [id]) (roots ++ [.mk o.start id o.children]) [] where
  pending := h.pending.pop closing
  written := by
    have hread : bracketIds registry (read ++ [id]) = bracketIds registry read ++ [id] := by
      simp [bracketIds, closing]
    rw [hread, ← h.written]
    simp [writtenAll_append, writtenOpen, writtenAll, Block.written]

theorem popInto {o parent : Opened} (h : Reads registry read roots (o :: parent :: opened))
    (closing : bracket? registry id = some .closing) :
    Reads registry (read ++ [id]) roots
      ({ parent with children := parent.children ++ [.mk o.start id o.children] } :: opened) where
  pending := h.pending.pop closing
  written := by
    have hread : bracketIds registry (read ++ [id]) = bracketIds registry read ++ [id] := by
      simp [bracketIds, closing]
    rw [hread, ← h.written]
    simp [writtenAll_append, writtenOpen_cons, writtenAll, Block.written]

end Reads

/-- The fault that matching reports: the first aggregator without a fork, and only when there is
none the last fork without an aggregator. -/
def Reports (registry : Registry) (order : List String) (e : CompileError) : Prop :=
  (∃ id, e = .unmatchedAggregator id ∧ Overcloses registry order id) ∨
    (¬ ∃ id, Overcloses registry order id) ∧
      ∃ id, e = .unclosedFork id ∧ LeavesOpen registry order id

/-- Whatever is left to be read, matching ends with blocks that account for all of it or reports
what is wrong. -/
theorem Reads.run {read : List String} {roots : List Block} {opened : List Opened}
    (h : Reads registry read roots opened) (ids : List String) :
    (∃ blocks, matchFrom registry roots opened ids = .ok blocks ∧
      Reads registry (read ++ ids) blocks []) ∨
    ∃ e, matchFrom registry roots opened ids = .error e ∧ Reports registry (read ++ ids) e := by
  induction ids generalizing read roots opened with
  | nil =>
    rw [List.append_nil]
    cases opened with
    | nil => exact .inl ⟨roots, rfl, h⟩
    | cons o opened =>
      have none : ¬ ∃ id, Overcloses registry read id := fun ⟨_, hid⟩ => h.pending.not_overcloses hid
      exact .inr ⟨_, rfl, .inr ⟨none, o.start, rfl, h.pending.leavesOpen⟩⟩
  | cons id ids ih =>
    have hsplit : read ++ id :: ids = (read ++ [id]) ++ ids := by simp
    cases hb : bracket? registry id with
    | none => rw [matchFrom_plain hb, hsplit]; exact ih (h.pass hb)
    | some b =>
      cases b with
      | opening => rw [matchFrom_opening hb, hsplit]; exact ih (h.push hb)
      | closing =>
        rcases opened with _ | ⟨o, _ | ⟨parent, outer⟩⟩
        · refine .inr ⟨.unmatchedAggregator id, by simp [matchFrom, hb], .inl ⟨id, rfl, ?_⟩⟩
          exact h.pending.overcloses hb ids
        · simp only [matchFrom, hb]
          rw [hsplit]
          exact ih (h.pop hb)
        · simp only [matchFrom, hb]
          rw [hsplit]
          exact ih (h.popInto hb)

/-- A fault and balance exclude each other. -/
theorem Reports.not_balanced {order : List String} {e : CompileError}
    (h : Reports registry order e) : ¬ Balanced (word registry order) := by
  intro balanced
  obtain ⟨id, -, hid⟩ | ⟨-, id, -, front, rest, rfl, opening, hopen, -⟩ := h
  · exact (Pending.settled balanced).not_overcloses hid
  · exact hopen (closes_behind balanced rfl opening)

/-- A pair that is closed consists of a fork, if it was not open before, and an aggregator. -/
theorem bracket?_of_mem_closings {opened ids : List String} {p : String × String}
    (hp : p ∈ closings registry opened ids) :
    (p.1 ∈ opened ∨ bracket? registry p.1 = some .opening) ∧
      bracket? registry p.2 = some .closing := by
  induction ids generalizing opened with
  | nil => cases hp
  | cons id ids ih =>
    unfold closings at hp
    split at hp
    · exact ih hp
    · next hopen =>
      obtain ⟨hstart, hstop⟩ := ih hp
      refine ⟨?_, hstop⟩
      obtain hstart | hstart := hstart
      · obtain he | hstart := List.mem_cons.mp hstart
        · exact .inr (he ▸ hopen)
        · exact .inl hstart
      · exact .inr hstart
    · next hclose =>
      split at hp
      · exact ih hp
      · next start opened =>
        obtain rfl | hp := List.mem_cons.mp hp
        · exact ⟨.inl List.mem_cons_self, hclose⟩
        · obtain ⟨hstart, hstop⟩ := ih hp
          exact ⟨hstart.imp_left (List.mem_cons_of_mem _), hstop⟩

end Reading

/-- Matching succeeds exactly on balanced words. Its blocks join forks to aggregators and, written
out, are what was read; otherwise it reports what is wrong. -/
theorem matchAll_exact (registry : Registry) (order : List String) :
    ((∃ blocks, matchAll registry order = .ok blocks) ↔ Balanced (word registry order)) ∧
    (∀ blocks, matchAll registry order = .ok blocks →
      writtenAll blocks = bracketIds registry order ∧
      ∀ p ∈ pairsAll blocks, bracket? registry p.1 = some .opening ∧
        bracket? registry p.2 = some .closing) ∧
    ∀ e, matchAll registry order = .error e → Reports registry order e := by
  have hrun := (Reads.start registry).run order
  rw [List.nil_append] at hrun
  obtain ⟨blocks, hok, reads⟩ | ⟨e, herror, reports⟩ := hrun
  · have hmatch : matchAll registry order = .ok blocks := hok
    have balanced : Balanced (word registry order) := by
      cases reads.pending with
      | settled balanced => exact balanced
    have hwritten : writtenAll blocks = bracketIds registry order := by
      simpa [writtenOpen] using reads.written
    rw [hmatch]
    refine ⟨⟨fun _ => balanced, fun _ => ⟨blocks, rfl⟩⟩, ?_, by simp⟩
    rintro _ ⟨⟩
    refine ⟨hwritten, fun p hp => ?_⟩
    rw [pairsAll_of_matchAll hmatch] at hp
    obtain ⟨hstart, hstop⟩ := bracket?_of_mem_closings hp
    exact ⟨hstart.resolve_left (by simp), hstop⟩
  · have hmatch : matchAll registry order = .error e := herror
    rw [hmatch]
    refine ⟨⟨by simp, fun balanced => absurd balanced reports.not_balanced⟩, by simp, ?_⟩
    rintro _ ⟨⟩
    exact reports

end Block

end WorkflowCompiler
