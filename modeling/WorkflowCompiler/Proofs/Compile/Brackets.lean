import WorkflowCompiler.Compile.Block
import WorkflowCompiler.Proofs.Results

/-!
# Matched brackets

Matching closes the bracket opened last. Listed in the order of their ends, two blocks therefore
either follow each other or the later one encloses the earlier one, and folding takes them in
exactly this order.
-/
namespace WorkflowCompiler

namespace Block

theorem bracket?_eq_opening {r : Registry} {id : String} :
    bracket? r id = some .opening ↔ ∃ node, r.get? id = some node ∧ node.isFork = true := by
  unfold bracket?
  rcases r.get? id with _ | node
  · simp
  · by_cases hf : node.isFork = true <;> by_cases ha : node.isAggregator = true <;> simp [hf, ha]

theorem bracket?_eq_closing {r : Registry} {id : String} :
    bracket? r id = some .closing ↔
      ∃ node, r.get? id = some node ∧ node.isFork = false ∧ node.isAggregator = true := by
  unfold bracket?
  rcases r.get? id with _ | node
  · simp
  · by_cases hf : node.isFork = true <;> by_cases ha : node.isAggregator = true <;> simp [hf, ha]

mutual

/-- The ends of a block and of the blocks inside it, in the order of folding. -/
def pairs : Block → List (String × String)
  | .mk start stop children => pairsAll children ++ [(start, stop)]

/-- The ends of blocks and of the blocks inside them, in the order of folding. -/
def pairsAll : List Block → List (String × String)
  | [] => []
  | block :: rest => pairs block ++ pairsAll rest

end

theorem pairsAll_append (blocks more : List Block) :
    pairsAll (blocks ++ more) = pairsAll blocks ++ pairsAll more := by
  induction blocks with
  | nil => simp [pairsAll]
  | cons block blocks ih => simp [pairsAll, ih]

mutual

theorem fold_eq (block : Block) :
    block.fold = block.pairs.forM fun p => foldOne p.1 p.2 := by
  cases block with
  | mk start stop children =>
    rw [fold, pairs, List.forM_eq_forM, List.forM_append, foldAll_eq children]
    simp [List.forM_eq_forM]

/-- Folding blocks folds their pairs one after the other. -/
theorem foldAll_eq (blocks : List Block) :
    foldAll blocks = (pairsAll blocks).forM fun p => foldOne p.1 p.2 := by
  cases blocks with
  | nil => rfl
  | cons block rest =>
    rw [foldAll, pairsAll, List.forM_eq_forM, List.forM_append, fold_eq block, foldAll_eq rest]
    rfl

end

/-- The pairs that are closed among the remaining ids, given the open brackets, innermost first. -/
def closings (registry : Registry) : (opened ids : List String) → List (String × String)
  | _, [] => []
  | opened, id :: ids =>
    match bracket? registry id with
    | none => closings registry opened ids
    | some .opening => closings registry (id :: opened) ids
    | some .closing =>
      match opened with
      | [] => closings registry [] ids
      | start :: opened => (start, id) :: closings registry opened ids

/-- The pairs inside of open blocks, the outermost block first. -/
def innerPairs (opened : List Opened) : List (String × String) :=
  opened.reverse.flatMap fun o => pairsAll o.children

theorem innerPairs_cons (o : Opened) (opened : List Opened) :
    innerPairs (o :: opened) = innerPairs opened ++ pairsAll o.children := by
  simp [innerPairs]

theorem matchFrom_plain {registry : Registry} {id : String} (h : bracket? registry id = none)
    (roots : List Block) (opened : List Opened) (ids : List String) :
    matchFrom registry roots opened (id :: ids) = matchFrom registry roots opened ids := by
  cases opened <;> simp [matchFrom, h]

theorem matchFrom_opening {registry : Registry} {id : String}
    (h : bracket? registry id = some .opening) (roots : List Block) (opened : List Opened)
    (ids : List String) :
    matchFrom registry roots opened (id :: ids) = matchFrom registry roots (⟨id, []⟩ :: opened) ids := by
  cases opened <;> simp [matchFrom, h]

theorem pairsAll_of_matchFrom {registry : Registry} {roots blocks : List Block}
    {opened : List Opened} {ids : List String}
    (h : matchFrom registry roots opened ids = .ok blocks) :
    pairsAll blocks =
      pairsAll roots ++ innerPairs opened ++ closings registry (opened.map Opened.start) ids := by
  induction ids generalizing roots opened with
  | nil =>
    cases opened with
    | nil =>
      obtain rfl : roots = blocks := by simpa [matchFrom] using h
      simp [innerPairs, closings]
    | cons o opened => simp [matchFrom] at h
  | cons id ids ih =>
    unfold closings
    rcases hb : bracket? registry id with _ | _ | _
    · rw [matchFrom_plain hb] at h
      exact ih h
    · rw [matchFrom_opening hb] at h
      rw [ih h]
      simp [innerPairs_cons, pairsAll]
    · rcases opened with _ | ⟨o, _ | ⟨parent, outer⟩⟩
      · simp [matchFrom, hb] at h
      · simp only [matchFrom, hb] at h
        rw [ih h, pairsAll_append]
        simp [innerPairs, pairsAll, pairs]
      · simp only [matchFrom, hb] at h
        rw [ih h]
        simp [innerPairs_cons, pairsAll_append, pairsAll, pairs]

/-- Brackets that do not match spoil the whole graph. -/
theorem matchFrom_error {registry : Registry} {roots : List Block} {opened : List Opened}
    {ids : List String} {e : CompileError} (h : matchFrom registry roots opened ids = .error e) :
    e.isRecoverable = false := by
  induction ids generalizing roots opened with
  | nil =>
    cases opened with
    | nil => simp [matchFrom] at h
    | cons o opened =>
      simp only [matchFrom] at h
      cases h
      rfl
  | cons id ids ih =>
    rcases hb : bracket? registry id with _ | _ | _
    · exact ih (matchFrom_plain hb .. ▸ h)
    · exact ih (matchFrom_opening hb .. ▸ h)
    · rcases opened with _ | ⟨o, _ | ⟨parent, outer⟩⟩
      · simp only [matchFrom, hb] at h
        cases h
        rfl
      · simp only [matchFrom, hb] at h
        exact ih h
      · simp only [matchFrom, hb] at h
        exact ih h

theorem pairsAll_of_matchAll {registry : Registry} {order : List String} {blocks : List Block}
    (h : matchAll registry order = .ok blocks) : pairsAll blocks = closings registry [] order := by
  simpa [pairsAll, innerPairs] using pairsAll_of_matchFrom h

/-- A pair opens before it closes. -/
theorem mem_closings {registry : Registry} {position : String → Nat} {opened ids : List String}
    (increasing : ids.Pairwise fun a b => position a < position b)
    (behind : ∀ a ∈ opened, ∀ b ∈ ids, position a < position b) :
    ∀ p ∈ closings registry opened ids,
      (p.1 ∈ opened ∨ p.1 ∈ ids ∧ bracket? registry p.1 = some .opening) ∧
        p.2 ∈ ids ∧ bracket? registry p.2 = some .closing ∧ position p.1 < position p.2 := by
  induction ids generalizing opened with
  | nil => simp [closings]
  | cons id ids ih =>
    obtain ⟨hid, increasing⟩ := List.pairwise_cons.mp increasing
    have behind' : ∀ a ∈ opened, ∀ b ∈ ids, position a < position b :=
      fun a ha b hb => behind a ha b (List.mem_cons_of_mem _ hb)
    intro p hp
    unfold closings at hp
    split at hp
    · obtain ⟨h1, h2, h3⟩ := ih increasing behind' p hp
      exact ⟨h1.imp_right fun h => ⟨List.mem_cons_of_mem _ h.1, h.2⟩, List.mem_cons_of_mem _ h2, h3⟩
    · next hopen =>
      have hstack : ∀ a ∈ id :: opened, ∀ b ∈ ids, position a < position b := by
        intro a ha b hb
        rcases List.mem_cons.mp ha with rfl | ha
        · exact hid b hb
        · exact behind' a ha b hb
      obtain ⟨h1, h2, h3⟩ := ih increasing hstack p hp
      refine ⟨?_, List.mem_cons_of_mem _ h2, h3⟩
      rcases h1 with h1 | h1
      · rcases List.mem_cons.mp h1 with h1 | h1
        · exact .inr ⟨h1 ▸ List.mem_cons_self, h1 ▸ hopen⟩
        · exact .inl h1
      · exact .inr ⟨List.mem_cons_of_mem _ h1.1, h1.2⟩
    · next hb =>
      split at hp
      · obtain ⟨h1, h2, h3⟩ := ih increasing (by simp) p hp
        exact ⟨h1.imp_right fun h => ⟨List.mem_cons_of_mem _ h.1, h.2⟩, List.mem_cons_of_mem _ h2,
          h3⟩
      · next start opened =>
        rcases List.mem_cons.mp hp with rfl | hp
        · exact ⟨.inl List.mem_cons_self, List.mem_cons_self, hb,
            behind start List.mem_cons_self id List.mem_cons_self⟩
        · have hstack : ∀ a ∈ opened, ∀ b ∈ ids, position a < position b :=
            fun a ha => behind' a (List.mem_cons_of_mem _ ha)
          obtain ⟨h1, h2, h3⟩ := ih increasing hstack p hp
          exact ⟨h1.imp (List.mem_cons_of_mem _) fun h => ⟨List.mem_cons_of_mem _ h.1, h.2⟩,
            List.mem_cons_of_mem _ h2, h3⟩

/-- One pair closes before another and lies inside it or in front of it. -/
def Nested (position : String → Nat) (p q : String × String) : Prop :=
  position p.2 < position q.2 ∧ (position q.1 < position p.1 ∨ position p.2 < position q.1)

/-- Of two pairs, the one that closes later encloses the other or follows it. -/
theorem closings_nested {registry : Registry} {position : String → Nat} {opened ids : List String}
    (increasing : ids.Pairwise fun a b => position a < position b)
    (behind : ∀ a ∈ opened, ∀ b ∈ ids, position a < position b)
    (falling : opened.Pairwise fun a b => position b < position a) :
    (closings registry opened ids).Pairwise (Nested position) := by
  induction ids generalizing opened with
  | nil => simp [closings]
  | cons id ids ih =>
    obtain ⟨hid, increasing⟩ := List.pairwise_cons.mp increasing
    have behind' : ∀ a ∈ opened, ∀ b ∈ ids, position a < position b :=
      fun a ha b hb => behind a ha b (List.mem_cons_of_mem _ hb)
    unfold closings
    split
    · exact ih increasing behind' falling
    · refine ih increasing ?_ (.cons ?_ falling)
      · intro a ha b hb
        rcases List.mem_cons.mp ha with rfl | ha
        · exact hid b hb
        · exact behind' a ha b hb
      · exact fun a ha => behind a ha id List.mem_cons_self
    · split
      · exact ih increasing (by simp) .nil
      · next start opened =>
        obtain ⟨hstart, falling⟩ := List.pairwise_cons.mp falling
        have hstack : ∀ a ∈ opened, ∀ b ∈ ids, position a < position b :=
          fun a ha => behind' a (List.mem_cons_of_mem _ ha)
        refine .cons (fun q hq => ?_) (ih increasing hstack falling)
        obtain ⟨hq1, hq2, -, -⟩ := mem_closings increasing hstack q hq
        refine ⟨hid q.2 hq2, ?_⟩
        rcases hq1 with hq1 | hq1
        · exact .inl (hstart q.1 hq1)
        · exact .inr (hid q.1 hq1.1)

end Block

end WorkflowCompiler
