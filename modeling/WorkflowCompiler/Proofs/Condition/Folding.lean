import WorkflowCompiler.Condition.Clause
import WorkflowCompiler.Proofs.Results

/-!
# Clauses from left to right

A list of clauses compiles when it is not empty and each clause is in order by itself, the last one
included, although its word joins it to nothing. The condition is then a fold over the comparisons of
the clauses: the word of a clause joins all that stands up to that clause with the comparison behind
it. Otherwise the first clause that is not in order is at fault, and the first thing about it.
-/
namespace WorkflowCompiler

/-- What a condition comes to when each comparison comes to what `test` makes of it. What stands on
the right is looked at only where the left side does not settle the answer, and a comparison may
fail. -/
def Condition.holds {ε : Type} (test : Nat → Comparison → Literal → Except ε Bool) :
    Condition → Except ε Bool
  | .compare index comparison literal => test index comparison literal
  | .both left right => do if ← left.holds test then right.holds test else return false
  | .either left right => do if ← left.holds test then return true else right.holds test

namespace Comparison

theorem read_eq_ok {text : String} {c : Comparison} :
    read text = .ok c ↔ c.symbol = Text.trim text := by
  constructor
  · intro h
    simp only [read] at h
    split at h
    · next found =>
      cases h
      have sign := List.find?_some found
      exact of_decide_eq_true sign
    · cases h
  · intro sign
    have found : all.find? (fun d => d.symbol = Text.trim text) = some c := by
      rw [← sign]
      cases c <;> rfl
    simp only [read, found]

theorem read_eq_error {text : String} {e : CompileError} :
    read text = .error e ↔
      (∀ c : Comparison, c.symbol ≠ Text.trim text) ∧ e = .unsupportedOperator (Text.trim text) := by
  constructor
  · intro h
    refine ⟨fun c sign => ?_, ?_⟩
    · cases (read_eq_ok.mpr sign).symm.trans h
    · simp only [read] at h
      split at h
      · cases h
      · cases h
        rfl
  · rintro ⟨unknown, rfl⟩
    cases h : read text with
    | ok c => exact absurd (read_eq_ok.mp h) (unknown c)
    | error e =>
      simp only [read] at h
      split at h
      · cases h
      · exact h.symm

end Comparison

namespace Clause

/-- Whether the input at an index is the one that a clause speaks of: the first of that name. -/
structure Names (inputs : List InputShape) (clause : Clause) (index : Nat) (shape : InputShape) :
    Prop where
  declared : inputs[index]? = some shape
  named : shape.variableName = clause.variableName
  first : ∀ i < index, ∀ other, inputs[i]? = some other → other.variableName ≠ clause.variableName

/-- The word of a clause without the blanks around it. -/
def word (clause : Clause) : Option String := clause.conjunction.map Text.trim

/-- Which comparison a clause makes, if its input, its operator and its value are in order. -/
inductive Reads (inputs : List InputShape) (clause : Clause) : Condition → Prop
  | intro {index : Nat} {shape : InputShape} {comparison : Comparison} {literal : Literal}
      (names : clause.Names inputs index shape)
      (sign : comparison.symbol = Text.trim clause.operator)
      (value : Literal.coerce clause.variableName (shape.variableType.getD "str") clause.value =
        .ok literal) :
      Reads inputs clause (.compare index comparison literal)

/-- Whether a clause is in order and makes this comparison. -/
structure Yields (inputs : List InputShape) (clause : Clause) (leaf : Condition) : Prop where
  reads : clause.Reads inputs leaf
  word : clause.word ∈ [none, some "", some "and", some "or"]

/-- What is wrong with a clause: its input, its operator, its value or its word, and nothing that is
looked at before. -/
inductive Fails (node : String) (inputs : List InputShape) (clause : Clause) : CompileError → Prop
  | input (unknown : ∀ shape ∈ inputs, shape.variableName ≠ clause.variableName) :
      Fails node inputs clause (.unknownConditionVariable node clause.variableName)
  | operator {index : Nat} {shape : InputShape} (names : clause.Names inputs index shape)
      (unknown : ∀ comparison : Comparison, comparison.symbol ≠ Text.trim clause.operator) :
      Fails node inputs clause (.unsupportedOperator (Text.trim clause.operator))
  | value {index : Nat} {shape : InputShape} {comparison : Comparison} {e : CompileError}
      (names : clause.Names inputs index shape)
      (sign : comparison.symbol = Text.trim clause.operator)
      (misread : Literal.coerce clause.variableName (shape.variableType.getD "str") clause.value =
        .error e) : Fails node inputs clause e
  | word {leaf : Condition} {word : String} (reads : clause.Reads inputs leaf)
      (present : clause.word = some word) (unknown : word ∉ ["", "and", "or"]) :
      Fails node inputs clause (.unsupportedConjunction word)

/-- What stands up to a clause, joined with what stands behind it. -/
def join (clause : Clause) (left right : Condition) : Condition :=
  if clause.word = some "or" then .either left right else .both left right

/-- What all up to a clause comes to, combined with what the clause behind it comes to. -/
def combine {ε : Type} (clause : Clause) (left right : Except ε Bool) : Except ε Bool := do
  if clause.word = some "or" then if ← left then return true else right
  else if ← left then right else return false

variable {node : String} {inputs : List InputShape} {clause : Clause}

/-! ## One clause -/

theorem findIdx?_eq_some {index : Nat} :
    inputs.findIdx? (fun shape => shape.variableName = clause.variableName) = some index ↔
      ∃ shape, clause.Names inputs index shape := by
  rw [List.findIdx?_eq_some_iff_getElem]
  constructor
  · rintro ⟨bound, named, first⟩
    refine ⟨inputs[index], List.getElem?_eq_getElem bound, of_decide_eq_true named, ?_⟩
    rintro i hi other found same
    obtain ⟨_, rfl⟩ := List.getElem?_eq_some_iff.mp found
    exact first i hi (decide_eq_true same)
  · rintro ⟨shape, declared, named, first⟩
    obtain ⟨bound, rfl⟩ := List.getElem?_eq_some_iff.mp declared
    refine ⟨bound, decide_eq_true named, fun i hi same => ?_⟩
    exact first i hi _ (List.getElem?_eq_getElem (Nat.lt_trans hi bound)) (of_decide_eq_true same)

/-- The inputs hold one that a clause speaks of, or none of that name. -/
theorem exists_names_or_unknown (inputs : List InputShape) (clause : Clause) :
    (∃ index shape, clause.Names inputs index shape) ∨
      ∀ shape ∈ inputs, shape.variableName ≠ clause.variableName := by
  cases found : inputs.findIdx? fun shape => shape.variableName = clause.variableName with
  | some index => exact .inl ⟨index, findIdx?_eq_some.mp found⟩
  | none =>
    refine .inr fun shape member same => ?_
    simpa [same] using List.findIdx?_eq_none_iff.mp found shape member

theorem comparison_of_unknown
    (unknown : ∀ shape ∈ inputs, shape.variableName ≠ clause.variableName) :
    clause.comparison node inputs =
      .error (.unknownConditionVariable node clause.variableName) := by
  have found : inputs.findIdx? (fun shape => shape.variableName = clause.variableName) = none :=
    List.findIdx?_eq_none_iff.mpr fun shape member => decide_eq_false (unknown shape member)
  simp only [comparison, found]

theorem comparison_of_names {index : Nat} {shape : InputShape}
    (names : clause.Names inputs index shape) :
    clause.comparison node inputs = (do
      let comparison ← Comparison.read clause.operator
      let literal ← Literal.coerce clause.variableName (shape.variableType.getD "str") clause.value
      return .compare index comparison literal) := by
  simp only [comparison, findIdx?_eq_some.mpr ⟨shape, names⟩, names.declared, Option.bind_some]

theorem comparison_eq_ok {leaf : Condition} :
    clause.comparison node inputs = .ok leaf ↔ clause.Reads inputs leaf := by
  constructor
  · intro h
    rcases exists_names_or_unknown inputs clause with ⟨index, shape, names⟩ | unknown
    · rw [comparison_of_names names] at h
      obtain ⟨comparison, sign, h⟩ := bind_eq_ok.mp h
      obtain ⟨literal, value, h⟩ := bind_eq_ok.mp h
      obtain rfl := pure_eq_ok.mp h
      exact .intro names (Comparison.read_eq_ok.mp sign) value
    · cases (comparison_of_unknown unknown).symm.trans h
  · rintro ⟨names, sign, value⟩
    rw [comparison_of_names names]
    exact bind_eq_ok.mpr ⟨_, Comparison.read_eq_ok.mpr sign, bind_eq_ok.mpr ⟨_, value, rfl⟩⟩

/-- A missing word is read like a blank one. -/
theorem link_eq (clause : Clause) :
    clause.link =
      if clause.word ∈ [none, some "", some "and"] then .ok .and
      else if clause.word = some "or" then .ok .or
      else .error (.unsupportedConjunction (clause.word.getD "")) := by
  have blank : Text.trim "" = "" := by decide
  unfold link word
  cases clause.conjunction with
  | none => simp [blank]
  | some text => simp

theorem link_eq_ok {next : Conjunction} :
    clause.link = .ok next ↔ clause.word ∈ [none, some "", some "and", some "or"] ∧
      (if clause.word = some "or" then .or else .and) = next := by
  rw [link_eq]
  split_ifs <;> simp_all

theorem link_eq_error {e : CompileError} :
    clause.link = .error e ↔ ∃ word, clause.word = some word ∧ word ∉ ["", "and", "or"] ∧
      .unsupportedConjunction word = e := by
  rw [link_eq]
  rcases clause.word with _ | word
  · simp
  · split_ifs <;> simp_all
    tauto

/-- The comparison of a clause whose word can stand in front of another one. -/
def leaf (node : String) (inputs : List InputShape) (clause : Clause) :
    Except CompileError Condition := do
  let leaf ← clause.comparison node inputs
  let _ ← clause.link
  return leaf

theorem leaf_eq_ok {leaf : Condition} :
    clause.leaf node inputs = .ok leaf ↔ clause.Yields inputs leaf := by
  constructor
  · intro h
    obtain ⟨leaf, reads, h⟩ := bind_eq_ok.mp h
    obtain ⟨next, word, h⟩ := bind_eq_ok.mp h
    obtain rfl := pure_eq_ok.mp h
    exact ⟨comparison_eq_ok.mp reads, (link_eq_ok.mp word).1⟩
  · rintro ⟨reads, word⟩
    exact bind_eq_ok.mpr ⟨leaf, comparison_eq_ok.mpr reads,
      bind_eq_ok.mpr ⟨_, link_eq_ok.mpr ⟨word, rfl⟩, rfl⟩⟩

theorem leaf_eq_error {e : CompileError} :
    clause.leaf node inputs = .error e ↔ clause.Fails node inputs e := by
  constructor
  · intro h
    rcases bind_eq_error.mp h with h | ⟨leaf, reads, h⟩
    · rcases exists_names_or_unknown inputs clause with ⟨index, shape, names⟩ | unknown
      · rw [comparison_of_names names] at h
        rcases bind_eq_error.mp h with h | ⟨comparison, sign, h⟩
        · obtain ⟨unknown, rfl⟩ := Comparison.read_eq_error.mp h
          exact .operator names unknown
        · rcases bind_eq_error.mp h with misread | ⟨literal, -, h⟩
          · exact .value names (Comparison.read_eq_ok.mp sign) misread
          · cases h
      · cases (comparison_of_unknown unknown).symm.trans h
        exact .input unknown
    · rcases bind_eq_error.mp h with h | ⟨next, -, h⟩
      · obtain ⟨word, present, unknown, rfl⟩ := link_eq_error.mp h
        exact .word (comparison_eq_ok.mp reads) present unknown
      · cases h
  · intro h
    cases h with
    | input unknown => exact bind_eq_error.mpr (.inl (comparison_of_unknown unknown))
    | operator names unknown =>
      refine bind_eq_error.mpr (.inl ?_)
      rw [comparison_of_names names]
      exact bind_eq_error.mpr (.inl (Comparison.read_eq_error.mpr ⟨unknown, rfl⟩))
    | value names sign misread =>
      refine bind_eq_error.mpr (.inl ?_)
      rw [comparison_of_names names]
      exact bind_eq_error.mpr
        (.inr ⟨_, Comparison.read_eq_ok.mpr sign, bind_eq_error.mpr (.inl misread)⟩)
    | word reads present unknown =>
      exact bind_eq_error.mpr (.inr ⟨_, comparison_eq_ok.mpr reads,
        bind_eq_error.mpr (.inl (link_eq_error.mpr ⟨_, present, unknown, rfl⟩))⟩)

/-! ## All clauses -/

/-- The first comparison joined with the rest: each clause joins all up to it with the comparison
behind it. -/
def joined (clauses : List Clause) (first : Condition) (rest : List Condition) : Condition :=
  (clauses.zip rest).foldl (fun left behind => behind.1.join left behind.2) first

/-- The loop over the clauses is a fold over what each of them yields. -/
theorem joinAll_eq {last : Clause} {next : Conjunction} (link : last.link = .ok next)
    (left : Condition) (clauses : List Clause) :
    joinAll node inputs left next clauses =
      (clauses.mapM (leaf node inputs)).map (joined (last :: clauses) left) := by
  induction clauses generalizing last next left with
  | nil => rfl
  | cons clause rest ih =>
    have join (right : Condition) : next.join left right = last.join left right := by
      obtain ⟨-, rfl⟩ := link_eq_ok.mp link
      unfold Clause.join
      split_ifs <;> rfl
    rw [joinAll, List.mapM_cons, leaf]
    rcases clause.comparison node inputs with e | right
    · rfl
    rcases word : clause.link with e | following
    · rfl
    show joinAll node inputs (next.join left right) following rest = _
    rw [ih word, join]
    show _ = ((rest.mapM (leaf node inputs)) >>= fun rights => pure (right :: rights)).map _
    rcases rest.mapM (leaf node inputs) with e | rights <;> rfl

end Clause

namespace Condition

variable {node : String} {inputs : List InputShape} {clauses : List Clause}

theorem ofClauses_cons (clause : Clause) :
    ofClauses node (clause :: clauses) inputs = (do
      let first ← clause.leaf node inputs
      let rest ← clauses.mapM (Clause.leaf node inputs)
      return Clause.joined (clause :: clauses) first rest) := by
  rw [ofClauses, Clause.leaf]
  rcases clause.comparison node inputs with e | first
  · rfl
  rcases word : clause.link with e | next
  · rfl
  show Clause.joinAll node inputs first next clauses = _
  rw [Clause.joinAll_eq word]
  show _ = (clauses.mapM (Clause.leaf node inputs) >>= fun rest => pure _)
  rcases clauses.mapM (Clause.leaf node inputs) with e | rest <;> rfl

/-- Clauses compile to the fold over what they yield. -/
theorem ofClauses_eq_ok {condition : Condition} :
    ofClauses node clauses inputs = .ok condition ↔ ∃ first rest,
      List.Forall₂ (Clause.Yields inputs) clauses (first :: rest) ∧
        condition = Clause.joined clauses first rest := by
  cases clauses with
  | nil => simp [ofClauses]
  | cons clause clauses =>
    simp only [ofClauses_cons, bind_eq_ok, pure_eq_ok, mapM_eq_ok, Clause.leaf_eq_ok,
      List.forall₂_cons]
    constructor
    · rintro ⟨first, yields, rest, all, rfl⟩
      exact ⟨first, rest, ⟨yields, all⟩, rfl⟩
    · rintro ⟨first, rest, ⟨yields, all⟩, rfl⟩
      exact ⟨first, yields, rest, all, rfl⟩

theorem ofClauses_eq_error {e : CompileError} :
    ofClauses node clauses inputs = .error e ↔
      (clauses = [] ∧ e = .missingField node "payload__stop_condition.conditions") ∨
        ∃ before clause after, clauses = before ++ clause :: after ∧
          (∀ other ∈ before, ∃ leaf, other.Yields inputs leaf) ∧ clause.Fails node inputs e := by
  have traversal : clauses.mapM (Clause.leaf node inputs) = .error e ↔ _ := mapM_eq_error
  simp only [Clause.leaf_eq_ok, Clause.leaf_eq_error] at traversal
  rw [← traversal]
  cases clauses with
  | nil =>
    simp only [ofClauses, List.mapM_nil, pure_ne_error, Except.error.injEq, true_and, or_false]
    exact eq_comm
  | cons clause clauses =>
    simp only [ofClauses_cons, List.mapM_cons, bind_eq_error, pure_ne_error, reduceCtorEq,
      false_and, and_false, exists_false, or_false, false_or]

/-- What the fold over comparisons comes to is the fold over what the comparisons come to. -/
theorem holds_joined {ε : Type} (test : Nat → Comparison → Literal → Except ε Bool)
    (clauses : List Clause) (first : Condition) (rest : List Condition) :
    (Clause.joined clauses first rest).holds test =
      (clauses.zip rest).foldl (fun left behind => behind.1.combine left (behind.2.holds test))
        (first.holds test) := by
  refine (List.foldl_hom (holds test) fun left behind => ?_).symm
  unfold Clause.combine Clause.join
  split_ifs <;> rfl

/-- Clauses compile when there are any and each of them is in order. The condition is then the fold
over their comparisons from left to right, and it comes to what these, taken from left to right, come
to. Otherwise the first clause that is not in order is at fault. -/
theorem ofClauses_folds (node : String) (clauses : List Clause) (inputs : List InputShape) :
    ((∃ condition, ofClauses node clauses inputs = .ok condition) ↔
      clauses ≠ [] ∧ ∀ clause ∈ clauses, ∃ leaf, clause.Yields inputs leaf) ∧
    (∀ condition, ofClauses node clauses inputs = .ok condition ↔ ∃ first rest,
      List.Forall₂ (Clause.Yields inputs) clauses (first :: rest) ∧
        condition = Clause.joined clauses first rest ∧
        ∀ {ε : Type} (test : Nat → Comparison → Literal → Except ε Bool),
          condition.holds test = (clauses.zip rest).foldl
            (fun left behind => behind.1.combine left (behind.2.holds test)) (first.holds test)) ∧
    (∀ e, ofClauses node clauses inputs = .error e ↔
      (clauses = [] ∧ e = .missingField node "payload__stop_condition.conditions") ∨
        ∃ before clause after, clauses = before ++ clause :: after ∧
          (∀ other ∈ before, ∃ leaf, other.Yields inputs leaf) ∧ clause.Fails node inputs e) := by
  refine ⟨?_, fun condition => ?_, fun e => ofClauses_eq_error⟩
  · constructor
    · rintro ⟨condition, compiled⟩
      obtain ⟨first, rest, all, -⟩ := ofClauses_eq_ok.mp compiled
      refine ⟨?_, fun clause member => ?_⟩
      · rintro rfl
        cases all
      · obtain ⟨leaf, -, yields⟩ := exists_of_mem_left all member
        exact ⟨leaf, yields⟩
    · rintro ⟨nonempty, all⟩
      cases compiled : ofClauses node clauses inputs with
      | ok condition => exact ⟨condition, rfl⟩
      | error e =>
        rcases ofClauses_eq_error.mp compiled with ⟨empty, -⟩ | ⟨before, clause, after, rfl, -, fails⟩
        · exact absurd empty nonempty
        · obtain ⟨leaf, yields⟩ := all clause (by simp)
          cases (Clause.leaf_eq_ok.mpr yields).symm.trans (Clause.leaf_eq_error.mpr fails)
  · rw [ofClauses_eq_ok]
    constructor
    · rintro ⟨first, rest, all, rfl⟩
      exact ⟨first, rest, all, rfl, fun test => holds_joined test clauses first rest⟩
    · rintro ⟨first, rest, all, eq, -⟩
      exact ⟨first, rest, all, eq⟩

/-- Clauses with `or` in front of `and`, with blanks around the words, and with a word behind the last
one. -/
def mixed : List Clause :=
  [⟨"a", " > ", .string "1", some " or "⟩, ⟨"b", "==", .string "z", some ""⟩,
    ⟨"a", "<", .string "5", some "and"⟩]

/-- Two inputs, the second of which declares no type. -/
def counters : List InputShape :=
  [{ variableName := "a", variableType := some "int" }, { variableName := "b" }]

theorem ofClauses_folds_mixed :
    ofClauses "loop" mixed counters =
        .ok (.both (.either (.compare 0 .greaterThan (.int 1)) (.compare 1 .equal (.str "z")))
          (.compare 0 .smallerThan (.int 5))) ∧
      mixed ≠ [] ∧ ∀ clause ∈ mixed, ∃ leaf, clause.Yields counters leaf := by
  have compiled : ofClauses "loop" mixed counters =
      .ok (.both (.either (.compare 0 .greaterThan (.int 1)) (.compare 1 .equal (.str "z")))
        (.compare 0 .smallerThan (.int 5))) := by decide
  exact ⟨compiled, (ofClauses_folds "loop" mixed counters).1.mp ⟨_, compiled⟩⟩

end Condition

end WorkflowCompiler
