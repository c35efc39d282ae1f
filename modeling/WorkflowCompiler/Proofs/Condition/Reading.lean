import WorkflowCompiler.Proofs.Condition.Scanning

/-!
# Conditions that are read back

The grammar of conditions: `or` binds loosest and above it `and`, both associate to the left, and
what stands in parentheses is an operand. A reader with a stack of open parentheses follows it token
by token. What the grammar allows a text to mean is what the reader finds, so a text means one
condition at most; and the text of a condition without decimal fractions means that condition.
-/
namespace WorkflowCompiler

namespace Literal

/-- Whether a literal is no decimal fraction. -/
def Exact (literal : Literal) : Prop := ∀ value, literal ≠ .float value

end Literal

namespace Condition

/-- Whether no decimal fraction stands in a condition. -/
def Exact : Condition → Prop
  | .compare _ _ literal => literal.Exact
  | .both left right => left.Exact ∧ right.Exact
  | .either left right => left.Exact ∧ right.Exact

/-- Which tokens are a literal. -/
inductive Constant : Literal → List Token → Prop
  | number (n : Nat) : Constant (.int n) [.number n]
  | negative (n : Nat) : Constant (.int (-n)) [.minus, .number n]
  | truth (value : Bool) : Constant (.bool value) [.truth value]
  | text (value : String) : Constant (.str value) [.text value]

/-- Which tokens are a condition, as an operand of what binds as tight as this: 0 for `or`, 1 for
`and`, 2 for neither. -/
inductive Phrase : Nat → Condition → List Token → Prop
  | leaf (index : Nat) (comparison : Comparison) {literal : Literal} {tokens : List Token}
      (constant : Constant literal tokens) :
      Phrase 2 (.compare index comparison literal)
        (.inputs :: .openIndex :: .number index :: .closeIndex :: .sign comparison :: tokens)
  | parens {condition : Condition} {tokens : List Token} (inner : Phrase 0 condition tokens) :
      Phrase 2 condition (.opening :: (tokens ++ [.closing]))
  | both {l r : Condition} {before behind : List Token} (left : Phrase 1 l before)
      (right : Phrase 2 r behind) : Phrase 1 (.both l r) (before ++ .and :: behind)
  | either {l r : Condition} {before behind : List Token} (left : Phrase 0 l before)
      (right : Phrase 1 r behind) : Phrase 0 (.either l r) (before ++ .or :: behind)
  | looser {level : Nat} {condition : Condition} {tokens : List Token}
      (tighter : Phrase (level + 1) condition tokens) : Phrase level condition tokens

/-- Whether a text means a condition. -/
def Means (text : String) (condition : Condition) : Prop :=
  ∃ tokens, scan text.toList = some tokens ∧ Phrase 0 condition tokens

/-! ## The reader -/

/-- What has been read in front of an operand inside the innermost parentheses. -/
structure Frame where
  either : Option Condition := none
  both : Option Condition := none

namespace Frame

/-- An operand joined with what stands in front of an `and`. -/
def conjoin (frame : Frame) (operand : Condition) : Condition :=
  match frame.both with
  | some left => .both left operand
  | none => operand

/-- An operand joined with all that stands in front of it. -/
def disjoin (frame : Frame) (operand : Condition) : Condition :=
  match frame.either with
  | some left => .either left (frame.conjoin operand)
  | none => frame.conjoin operand

end Frame

/-- How much of an operand has been read. -/
inductive Progress
  | nothing
  | inputs
  | openIndex
  | index (index : Nat)
  | subscript (index : Nat)
  | sign (index : Nat) (comparison : Comparison)
  | minus (index : Nat) (comparison : Comparison)
  | all (operand : Condition)

/-- A comparison goes on with a token. -/
def Progress.extend : Progress → Token → Option Progress
  | .nothing, .inputs => some .inputs
  | .inputs, .openIndex => some .openIndex
  | .openIndex, .number i => some (.index i)
  | .index i, .closeIndex => some (.subscript i)
  | .subscript i, .sign c => some (.sign i c)
  | .sign i c, .number n => some (.all (.compare i c (.int n)))
  | .sign i c, .minus => some (.minus i c)
  | .sign i c, .truth value => some (.all (.compare i c (.bool value)))
  | .sign i c, .text value => some (.all (.compare i c (.str value)))
  | .minus i c, .number n => some (.all (.compare i c (.int (-n))))
  | _, _ => none

/-- The state of the reader: the operand it is at, what stands in front of that, and what stands in
front of the open parentheses, the innermost first. -/
structure Reader where
  progress : Progress := .nothing
  frame : Frame := {}
  outer : List Frame := []

/-- Reads one token. -/
def Reader.step : Reader → Token → Option Reader
  | ⟨.nothing, frame, outer⟩, .opening => some ⟨.nothing, {}, frame :: outer⟩
  | ⟨.all operand, frame, next :: outer⟩, .closing =>
      some ⟨.all (frame.disjoin operand), next, outer⟩
  | ⟨.all operand, frame, outer⟩, .and =>
      some ⟨.nothing, { frame with both := some (frame.conjoin operand) }, outer⟩
  | ⟨.all operand, frame, outer⟩, .or =>
      some ⟨.nothing, { either := some (frame.disjoin operand) }, outer⟩
  | ⟨progress, frame, outer⟩, token =>
      (progress.extend token).map fun progress => ⟨progress, frame, outer⟩

theorem Reader.step_and (operand : Condition) (frame : Frame) (outer : List Frame) :
    Reader.step ⟨.all operand, frame, outer⟩ .and =
      some ⟨.nothing, { frame with both := some (frame.conjoin operand) }, outer⟩ := by
  cases outer <;> rfl

theorem Reader.step_or (operand : Condition) (frame : Frame) (outer : List Frame) :
    Reader.step ⟨.all operand, frame, outer⟩ .or =
      some ⟨.nothing, { either := some (frame.disjoin operand) }, outer⟩ := by
  cases outer <;> rfl

/-- The whole condition, if nothing is open. -/
def Reader.condition? : Reader → Option Condition
  | ⟨.all operand, frame, []⟩ => some (frame.disjoin operand)
  | _ => none

/-- Reads tokens. -/
def parse (tokens : List Token) : Option Condition := do
  (← tokens.foldlM Reader.step {}).condition?

/-- Reads a text. -/
def read (text : String) : Option Condition := do parse (← scan text.toList)

namespace Frame

/-- Whether nothing that binds as tight as this stands in front of the operand. -/
def Open (frame : Frame) : Nat → Prop
  | 0 => frame.either = none ∧ frame.both = none
  | 1 => frame.both = none
  | _ => True

/-- Whether an operand and what stands in front of it make up a condition that binds as tight as
this, read in place of an operand behind `frame`. -/
def Yields (frame front : Frame) (operand condition : Condition) : Nat → Prop
  | 0 => front.disjoin operand = condition
  | 1 => front.either = frame.either ∧ front.conjoin operand = condition
  | _ => front = frame ∧ operand = condition

end Frame

/-- The reader reads what the grammar allows. -/
theorem Phrase.foldlM_step {level : Nat} {condition : Condition} {tokens : List Token}
    (phrase : Phrase level condition tokens) (frame : Frame) (free : frame.Open level)
    (outer : List Frame) :
    ∃ operand front, tokens.foldlM Reader.step ⟨.nothing, frame, outer⟩ =
      some ⟨.all operand, front, outer⟩ ∧ frame.Yields front operand condition level := by
  induction phrase generalizing frame outer with
  | leaf index comparison constant =>
    cases constant <;> exact ⟨_, _, rfl, rfl, rfl⟩
  | parens inner ih =>
    obtain ⟨operand, front, run, yields⟩ := ih {} ⟨rfl, rfl⟩ (frame :: outer)
    refine ⟨_, frame, ?_, rfl, yields⟩
    have opens : Reader.step ⟨.nothing, frame, outer⟩ .opening =
        some ⟨.nothing, {}, frame :: outer⟩ := rfl
    rw [List.foldlM_cons, opens, Option.bind_eq_bind, Option.bind_some, List.foldlM_append, run]
    rfl
  | both left right ihl ihr =>
    obtain ⟨l, f, runl, either, yields⟩ := ihl frame free outer
    obtain ⟨r, g, runr, same, eq⟩ := ihr { f with both := some (f.conjoin l) } trivial outer
    refine ⟨r, g, ?_, ?_, ?_⟩
    · rw [List.foldlM_append, runl, Option.bind_eq_bind, Option.bind_some, List.foldlM_cons,
        Reader.step_and]
      exact runr
    · rw [same]
      exact either
    · rw [same, ← yields, ← eq]
      rfl
  | either left right ihl ihr =>
    obtain ⟨l, f, runl, yields⟩ := ihl frame free outer
    obtain ⟨r, g, runr, either, eq⟩ := ihr { either := some (f.disjoin l) } rfl outer
    refine ⟨r, g, ?_, ?_⟩
    · rw [List.foldlM_append, runl, Option.bind_eq_bind, Option.bind_some, List.foldlM_cons,
        Reader.step_or]
      exact runr
    · simp only [Frame.Yields, Frame.disjoin, either, eq]
      exact congrArg (Condition.either · _) yields
  | @looser level condition tokens tighter ih =>
    match level with
    | 0 =>
      obtain ⟨operand, front, run, either, eq⟩ := ih frame free.2 outer
      exact ⟨operand, front, run, by simp [Frame.Yields, Frame.disjoin, either, free.1, eq]⟩
    | 1 =>
      obtain ⟨operand, front, run, same, eq⟩ := ih frame trivial outer
      refine ⟨operand, front, run, by rw [same], ?_⟩
      rw [same, Frame.conjoin, show frame.both = none from free]
      exact eq
    | level + 2 => exact ih frame trivial outer

/-! ## What has been read -/

theorem Phrase.of_le {n m : Nat} (h : n ≤ m) {condition : Condition} {tokens : List Token}
    (phrase : Phrase m condition tokens) : Phrase n condition tokens := by
  induction h with
  | refl => exact phrase
  | step _ ih => exact ih phrase.looser

/-- Which tokens have been read of an operand. -/
inductive Progress.Read : Progress → List Token → Prop
  | nothing : Read .nothing []
  | inputs : Read .inputs [.inputs]
  | openIndex : Read .openIndex [.inputs, .openIndex]
  | index (i : Nat) : Read (.index i) [.inputs, .openIndex, .number i]
  | subscript (i : Nat) : Read (.subscript i) [.inputs, .openIndex, .number i, .closeIndex]
  | sign (i : Nat) (c : Comparison) :
      Read (.sign i c) [.inputs, .openIndex, .number i, .closeIndex, .sign c]
  | minus (i : Nat) (c : Comparison) :
      Read (.minus i c) [.inputs, .openIndex, .number i, .closeIndex, .sign c, .minus]
  | all {operand : Condition} {tokens : List Token} (phrase : Phrase 2 operand tokens) :
      Read (.all operand) tokens

theorem Progress.Read.extend {progress next : Progress} {tokens : List Token} {token : Token}
    (h : Read progress tokens) (goes : progress.extend token = some next) :
    Read next (tokens ++ [token]) := by
  cases h with
  | nothing =>
    cases token <;> cases goes
    exact .inputs
  | inputs =>
    cases token <;> cases goes
    exact .openIndex
  | openIndex =>
    cases token <;> cases goes
    exact .index _
  | index i =>
    cases token <;> cases goes
    exact .subscript i
  | subscript i =>
    cases token <;> cases goes
    exact .sign i _
  | sign i c =>
    cases token <;> cases goes
    · exact .minus i c
    · exact .all (.leaf i c (.number _))
    · exact .all (.leaf i c (.truth _))
    · exact .all (.leaf i c (.text _))
  | minus i c =>
    cases token <;> cases goes
    exact .all (.leaf i c (.negative _))
  | all => cases goes

/-- Which tokens are what stands in front of a connective, with that connective. -/
inductive Front (level : Nat) (connective : Token) : Option Condition → List Token → Prop
  | none : Front level connective none []
  | some {left : Condition} {tokens : List Token} (phrase : Phrase level left tokens) :
      Front level connective (some left) (tokens ++ [connective])

theorem Front.conjoin {either both : Option Condition} {operand : Condition}
    {before tokens : List Token} (front : Front 1 .and both before)
    (phrase : Phrase 2 operand tokens) :
    Phrase 1 (Frame.conjoin ⟨either, both⟩ operand) (before ++ tokens) := by
  cases front with
  | none => exact phrase.looser
  | some left => simpa [Frame.conjoin] using Phrase.both left phrase

theorem Front.disjoin {either both : Option Condition} {operand : Condition}
    {before tokens : List Token} (front : Front 0 .or either before)
    (phrase : Phrase 1 (Frame.conjoin ⟨either, both⟩ operand) tokens) :
    Phrase 0 (Frame.disjoin ⟨either, both⟩ operand) (before ++ tokens) := by
  cases front with
  | none => exact phrase.looser
  | some left => simpa [Frame.disjoin] using Phrase.either left phrase

/-- Which tokens stand in front of the open parentheses, with these. -/
inductive Outer : List Frame → List Token → Prop
  | nil : Outer [] []
  | cons {either both : Option Condition} {outer : List Frame} {ts us vs : List Token}
      (rest : Outer outer ts) (disjunct : Front 0 .or either us) (conjunct : Front 1 .and both vs) :
      Outer (⟨either, both⟩ :: outer) (ts ++ (us ++ (vs ++ [.opening])))

/-- Which tokens have been read. -/
inductive Reader.Read : Reader → List Token → Prop
  | intro {progress : Progress} {either both : Option Condition} {outer : List Frame}
      {ts us vs ws : List Token} (rest : Outer outer ts) (disjunct : Front 0 .or either us)
      (conjunct : Front 1 .and both vs) (operand : progress.Read ws) :
      Read ⟨progress, ⟨either, both⟩, outer⟩ (ts ++ (us ++ (vs ++ ws)))

theorem Reader.Read.step {r next : Reader} {tokens : List Token} {token : Token}
    (h : Read r tokens) (run : r.step token = some next) : Read next (tokens ++ [token]) := by
  unfold Reader.step at run
  split at run
  · cases run
    cases h with
    | intro rest disjunct conjunct operand =>
      cases operand with
      | nothing => simpa using Read.intro (.cons rest disjunct conjunct) .none .none .nothing
  · cases run
    cases h with
    | intro rest disjunct conjunct operand =>
      cases operand with
      | all phrase =>
        have inner := disjunct.disjoin (conjunct.conjoin phrase)
        cases rest with
        | cons rest disjunct conjunct =>
          simpa using Read.intro rest disjunct conjunct (.all (.parens inner))
  · cases run
    cases h with
    | intro rest disjunct conjunct operand =>
      cases operand with
      | all phrase =>
        simpa using Read.intro rest disjunct (.some (conjunct.conjoin phrase)) .nothing
  · cases run
    cases h with
    | intro rest disjunct conjunct operand =>
      cases operand with
      | all phrase =>
        have whole := disjunct.disjoin (conjunct.conjoin phrase)
        simpa using Read.intro rest (.some whole) .none .nothing
  · cases h with
    | intro rest disjunct conjunct operand =>
      obtain ⟨progress, goes, rfl⟩ := Option.map_eq_some_iff.mp run
      simpa using Read.intro rest disjunct conjunct (operand.extend goes)

theorem Reader.Read.run {r next : Reader} {tokens more : List Token} (h : Read r tokens)
    (run : more.foldlM Reader.step r = some next) : Read next (tokens ++ more) := by
  induction more generalizing r tokens with
  | nil =>
    obtain rfl := Option.some.inj run
    simpa using h
  | cons token more ih =>
    rw [List.foldlM_cons] at run
    obtain ⟨s, step, run⟩ := Option.bind_eq_some_iff.mp run
    simpa using ih (h.step step) run

/-- The reader reads exactly what the grammar allows. -/
theorem parse_eq_some_iff {condition : Condition} {tokens : List Token} :
    parse tokens = some condition ↔ Phrase 0 condition tokens := by
  constructor
  · intro h
    obtain ⟨r, run, whole⟩ := Option.bind_eq_some_iff.mp h
    have read := (Reader.Read.intro .nil .none .none .nothing : Reader.Read {} []).run run
    unfold Reader.condition? at whole
    split at whole
    · cases whole
      cases read with
      | intro rest disjunct conjunct operand =>
        cases rest
        cases operand with
        | all phrase => exact disjunct.disjoin (conjunct.conjoin phrase)
    · cases whole
  · intro phrase
    obtain ⟨operand, front, run, yields⟩ := phrase.foldlM_step {} ⟨rfl, rfl⟩ []
    have run : tokens.foldlM Reader.step {} = some ⟨.all operand, front, []⟩ := run
    rw [parse, run]
    exact congrArg some yields

/-- A text is read as what it means. -/
theorem read_eq_some_iff {text : String} {condition : Condition} :
    read text = some condition ↔ Means text condition := by
  simp only [read, Means, ← parse_eq_some_iff]
  exact Option.bind_eq_some_iff

/-! ## The text of a condition -/

theorem exists_constant {literal : Literal} (exact : literal.Exact) :
    ∃ tokens, Scans literal.render.toList tokens ∧ Constant literal tokens := by
  cases literal with
  | int n =>
    cases n with
    | ofNat n =>
      refine ⟨_, ?_, .number n⟩
      rw [Literal.render, Int.ofNat_eq_natCast, Integer.toList_ofNat]
      exact .number n
    | negSucc n =>
      refine ⟨_, ?_, .negative (n + 1)⟩
      rw [Literal.render, Integer.toList_negSucc]
      exact Scans.nil.join .minus (.number (n + 1))
  | float value => exact absurd rfl (exact value)
  | bool value => exact ⟨_, .truth value, .truth value⟩
  | str value => exact ⟨_, .text value, .text value⟩

/-- The text of an operand is one that binds tight enough on its side. -/
theorem exists_operand {condition : Condition} (outer : Nat) (loose : outer ≤ 1) (isRight : Bool)
    (h : ∃ tokens, Scans condition.render.toList tokens ∧
      Phrase condition.precedence condition tokens) :
    ∃ tokens, Scans (operand outer isRight condition condition.render).toList tokens ∧
      Phrase (outer + isRight.toNat) condition tokens := by
  obtain ⟨tokens, scans, phrase⟩ := h
  unfold operand
  split
  · have strong : outer + isRight.toNat ≤ 2 := by cases isRight <;> simp <;> omega
    refine ⟨_, ?_, (Phrase.parens (phrase.of_le (Nat.zero_le _))).of_le strong⟩
    simpa using Scans.nil.join .opening (scans.join .closing .nil)
  · next tight =>
    refine ⟨tokens, scans, phrase.of_le ?_⟩
    cases isRight <;> simp at tight ⊢ <;> omega

/-- The text of a condition is one that binds as tight as its uppermost connective. -/
theorem exists_phrase {condition : Condition} (exact : condition.Exact) :
    ∃ tokens, Scans condition.render.toList tokens ∧
      Phrase condition.precedence condition tokens := by
  induction condition with
  | compare index comparison literal =>
    obtain ⟨tokens, scans, constant⟩ := exists_constant exact
    refine ⟨_, ?_, .leaf index comparison constant⟩
    have text := Scans.inputs.join .openIndex ((Scans.number index).join .closeIndex
      (Scans.nil.join .blank ((Scans.sign comparison).join .blank scans)))
    simpa [render] using text
  | both left right ihl ihr =>
    obtain ⟨before, scansl, phrasel⟩ := exists_operand 1 (by decide) false (ihl exact.1)
    obtain ⟨behind, scansr, phraser⟩ := exists_operand 1 (by decide) true (ihr exact.2)
    refine ⟨_, ?_, .both phrasel phraser⟩
    have text := scansl.join .blank (Scans.and.join .blank scansr)
    simpa [render] using text
  | either left right ihl ihr =>
    obtain ⟨before, scansl, phrasel⟩ := exists_operand 0 (by decide) false (ihl exact.1)
    obtain ⟨behind, scansr, phraser⟩ := exists_operand 0 (by decide) true (ihr exact.2)
    refine ⟨_, ?_, .either phrasel phraser⟩
    have text := scansl.join .blank (Scans.or.join .blank scansr)
    simpa [render] using text

/-- The text of a condition without decimal fractions is read as that condition, and it means no
other. -/
theorem read_render {condition : Condition} (exact : condition.Exact) :
    read condition.render = some condition ∧
      ∀ other, Means condition.render other ↔ other = condition := by
  obtain ⟨tokens, scans, phrase⟩ := exists_phrase exact
  have means : Means condition.render condition :=
    ⟨tokens, scans.scan_eq, phrase.of_le (Nat.zero_le _)⟩
  have back := read_eq_some_iff.mpr means
  refine ⟨back, fun other => ?_⟩
  rw [← read_eq_some_iff, back, Option.some.injEq, eq_comm]

/-- A condition with operands on both sides that need parentheses, and with a text that looks like
one. -/
def thicket : Condition :=
  .both
    (.both (.either (.compare 0 .greaterThanOrEqual (.int (-12))) (.compare 1 .equal (.bool true)))
      (.compare 2 .notEqual (.str "it's) and x[0] == '\\'\n")))
    (.both (.compare 10 .smallerThan (.int 0))
      (.either (.compare 0 .equal (.str "")) (.either (.compare 1 .equal (.bool false))
        (.both (.compare 2 .equal (.str "\t")) (.compare 3 .greaterThan (.int 7))))))

theorem read_render_thicket :
    thicket.Exact ∧ read thicket.render = some thicket ∧
      ∀ other, Means thicket.render other ↔ other = thicket := by
  have exact : thicket.Exact := by simp [thicket, Exact, Literal.Exact]
  exact ⟨exact, read_render exact⟩

end Condition

end WorkflowCompiler
