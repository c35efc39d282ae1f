import WorkflowCompiler.Flow.RunCheck
import WorkflowCompiler.Proofs.Entries

/-!
# What the run check finds

The engine runs what stands in the lists of a flow and, from there, what stands in the arguments of
each mapping that it runs. The run check fails exactly where one of the two lists is no list, or
where the engine would come to an empty mapping or to something that is no mapping.
-/
namespace WorkflowCompiler

namespace Json

/-- What the engine runs of the arguments of a node: the nodes and resources of an embedded flow, the
bodies of its cases, and its two branches. -/
inductive Embeds (args : JsonObject) : Json → Prop
  | node {nodes : List Json} {entry : Json} (flow : args.get? "nodes" = some (.array nodes))
      (mem : entry ∈ nodes) : Embeds args entry
  | resource {nodes resources : List Json} {entry : Json}
      (flow : args.get? "nodes" = some (.array nodes))
      (used : args.get? "resources" = some (.array resources)) (mem : entry ∈ resources) :
      Embeds args entry
  | case {cases : JsonObject} {key : String} {body : List Json} {entry : Json}
      (fork : args.get? "nodes" = some (.object cases)) (case : (key, .array body) ∈ cases)
      (mem : entry ∈ body) : Embeds args entry
  | branch {key : String} {body : List Json} {entry : Json} (truth : key = "true" ∨ key = "false")
      (branch : args.get? key = some (.array body)) (mem : entry ∈ body) : Embeds args entry

/-- `flow.Live entry`: the engine that runs `flow` comes to `entry`. -/
inductive Live (flow : Json) : Json → Prop
  | top {key : String} {entries : List Json} {entry : Json}
      (part : key = "nodes" ∨ key = "resources") (list : flow.field? key = some (.array entries))
      (mem : entry ∈ entries) : Live flow entry
  | inside {fields args : JsonObject} {entry : Json} (outer : Live flow (.object fields))
      (has : fields.get? "args" = some (.object args)) (embeds : Embeds args entry) :
      Live flow entry

/-- Whether nothing can be run in the place of an entry: it is an empty mapping, or none at all. -/
def Missing (entry : Json) : Prop := entry = .object [] ∨ entry.object? = none

/-! ## One step of the check -/

theorem argsCanRun_eq (fields : JsonObject) :
    argsCanRun fields =
      match Entries.get? fields "args" with
      | some (.object args) =>
          embeddedCanRun args && (!embedsFlow args || bodyCanRun "resources" args) &&
            bodyCanRun "true" args && bodyCanRun "false" args
      | _ => true := by
  induction fields with
  | nil => rfl
  | cons e rest ih =>
    obtain ⟨key, value⟩ := e
    unfold argsCanRun Entries.get?
    split
    · cases value <;> rfl
    · exact ih

theorem embeddedCanRun_eq (fields : JsonObject) :
    embeddedCanRun fields =
      match Entries.get? fields "nodes" with
      | some (.array nodes) => nodesCanRun nodes
      | some (.object cases) => casesCanRun cases
      | _ => true := by
  induction fields with
  | nil => rfl
  | cons e rest ih =>
    obtain ⟨key, value⟩ := e
    unfold embeddedCanRun Entries.get?
    split
    · cases value <;> rfl
    · exact ih

theorem bodyCanRun_eq (name : String) (fields : JsonObject) :
    bodyCanRun name fields =
      match Entries.get? fields name with
      | some (.array nodes) => nodesCanRun nodes
      | _ => true := by
  induction fields with
  | nil => rfl
  | cons e rest ih =>
    obtain ⟨key, value⟩ := e
    unfold bodyCanRun Entries.get?
    split
    · cases value <;> rfl
    · exact ih

theorem nodesCanRun_iff {nodes : List Json} :
    nodesCanRun nodes = true ↔ ∀ node ∈ nodes, nodeCanRun node = true := by
  rw [nodesCanRun_eq_all, List.all_eq_true]

theorem casesCanRun_iff {cases : JsonObject} :
    casesCanRun cases = true ↔
      ∀ key body, (key, .array body) ∈ cases → nodesCanRun body = true := by
  induction cases with
  | nil => simp [casesCanRun]
  | cons e rest ih =>
    obtain ⟨key, value⟩ := e
    unfold casesCanRun
    rw [Bool.and_eq_true, ih]
    constructor
    · rintro ⟨first, others⟩ k body h
      rcases List.mem_cons.mp h with he | h
      · obtain ⟨rfl, rfl⟩ := Prod.mk.inj he
        exact first
      · exact others k body h
    · intro all
      refine ⟨?_, fun k body h => all k body (List.mem_cons_of_mem _ h)⟩
      cases value with
      | array body => exact all key body List.mem_cons_self
      | _ => rfl

theorem bodyCanRun_iff {name : String} {args : JsonObject} :
    bodyCanRun name args = true ↔
      ∀ body, args.get? name = some (.array body) → nodesCanRun body = true := by
  rw [bodyCanRun_eq]
  split
  · next body h => simp [h]
  · next other =>
    exact iff_of_true rfl fun body h => absurd h (other body)

theorem nodesCanRun_eq_false {nodes : List Json} {node : Json} (h : node ∈ nodes)
    (fails : nodeCanRun node = false) : nodesCanRun nodes = false := by
  rw [nodesCanRun_eq_all]
  exact List.all_eq_false.mpr ⟨node, h, by simp [fails]⟩

theorem casesCanRun_eq_false {cases : JsonObject} {key : String} {nodes : List Json}
    (h : (key, .array nodes) ∈ cases) (fails : nodesCanRun nodes = false) :
    casesCanRun cases = false := by
  rw [← Bool.not_eq_true, casesCanRun_iff]
  exact fun all => by simp [all key nodes h] at fails

/-- Arguments pass the check when all that is run of them does. -/
theorem argsCanRun_iff {fields args : JsonObject} (has : fields.get? "args" = some (.object args)) :
    argsCanRun fields = true ↔ ∀ entry, Embeds args entry → nodeCanRun entry = true := by
  rw [argsCanRun_eq, has]
  simp only [Bool.and_eq_true]
  constructor
  · rintro ⟨⟨⟨embedded, resources⟩, yes⟩, no⟩ entry h
    rw [embeddedCanRun_eq] at embedded
    cases h with
    | node flow mem =>
      rw [flow] at embedded
      exact nodesCanRun_iff.mp embedded entry mem
    | resource flow used mem =>
      have body : bodyCanRun "resources" args = true := by simpa [embedsFlow, flow] using resources
      exact nodesCanRun_iff.mp (bodyCanRun_iff.mp body _ used) entry mem
    | case fork case mem =>
      rw [fork] at embedded
      exact nodesCanRun_iff.mp (casesCanRun_iff.mp embedded _ _ case) entry mem
    | branch truth branch mem =>
      rcases truth with rfl | rfl
      · exact nodesCanRun_iff.mp (bodyCanRun_iff.mp yes _ branch) entry mem
      · exact nodesCanRun_iff.mp (bodyCanRun_iff.mp no _ branch) entry mem
  · intro all
    have branch : ∀ key, key = "true" ∨ key = "false" → bodyCanRun key args = true :=
      fun key truth => bodyCanRun_iff.mpr fun body found =>
        nodesCanRun_iff.mpr fun entry mem => all entry (.branch truth found mem)
    refine ⟨⟨⟨?_, ?_⟩, branch "true" (.inl rfl)⟩, branch "false" (.inr rfl)⟩
    · rw [embeddedCanRun_eq]
      split
      · next nodes flow => exact nodesCanRun_iff.mpr fun entry mem => all entry (.node flow mem)
      · next cases fork =>
        exact casesCanRun_iff.mpr fun key body case =>
          nodesCanRun_iff.mpr fun entry mem => all entry (.case fork case mem)
      · rfl
    · unfold embedsFlow
      split
      · next nodes flow =>
        exact bodyCanRun_iff.mpr fun resources used =>
          nodesCanRun_iff.mpr fun entry mem => all entry (.resource flow used mem)
      · rfl

/-- A mapping passes the check when it is not empty and all that is run of its arguments passes. -/
theorem nodeCanRun_iff {fields : JsonObject} :
    nodeCanRun (.object fields) = true ↔
      fields ≠ [] ∧ ∀ args, fields.get? "args" = some (.object args) →
        ∀ entry, Embeds args entry → nodeCanRun entry = true := by
  rw [nodeCanRun, Bool.and_eq_true]
  refine and_congr (by simp) ?_
  by_cases has : ∃ args, fields.get? "args" = some (.object args)
  · obtain ⟨args, has⟩ := has
    rw [argsCanRun_iff has, has]
    simp
  · rw [argsCanRun_eq]
    refine iff_of_true ?_ fun args h => absurd ⟨args, h⟩ has
    split
    · next args h => exact absurd ⟨args, h⟩ has
    · rfl

theorem not_missing_of_nodeCanRun {entry : Json} (h : nodeCanRun entry = true) : ¬ entry.Missing := by
  rintro (rfl | none)
  · cases h
  · cases entry with
    | object fields => cases none
    | _ => cases h

/-! ## The whole check -/

theorem sizeOf_lt_of_mem {fields : JsonObject} {key : String} {value : Json}
    (h : (key, value) ∈ fields) : sizeOf value < sizeOf (Json.object fields) := by
  have := List.sizeOf_lt_of_mem h
  simp only [Prod.mk.sizeOf_spec, object.sizeOf_spec] at this ⊢
  omega

theorem Embeds.sizeOf_lt {args : JsonObject} {entry : Json} (h : Embeds args entry) :
    sizeOf entry < sizeOf (Json.object args) := by
  have item : ∀ {entries : List Json}, entry ∈ entries → sizeOf entry < sizeOf (Json.array entries) := by
    intro entries mem
    have := List.sizeOf_lt_of_mem mem
    simp only [array.sizeOf_spec]
    omega
  have under : ∀ {key : String} {value : Json}, args.get? key = some value →
      sizeOf value < sizeOf (Json.object args) := fun h => sizeOf_lt_of_mem (Entries.mem_of_get? h)
  cases h with
  | node flow mem => exact Nat.lt_trans (item mem) (under flow)
  | resource _ used mem => exact Nat.lt_trans (item mem) (under used)
  | case fork case mem =>
    exact Nat.lt_trans (item mem) (Nat.lt_trans (sizeOf_lt_of_mem case) (under fork))
  | branch _ branch mem => exact Nat.lt_trans (item mem) (under branch)

variable {flow : Json}

/-- Where the check of an entry fails, the engine comes to something that is missing. -/
theorem Live.exists_missing {entry : Json} (live : flow.Live entry)
    (fails : nodeCanRun entry = false) : ∃ found, flow.Live found ∧ found.Missing := by
  induction size : sizeOf entry using Nat.strongRecOn generalizing entry with
  | ind n ih =>
    cases entry with
    | object fields =>
      by_cases empty : fields = []
      · exact ⟨_, live, .inl (by rw [empty])⟩
      · -- something that is run of the arguments fails, and it is smaller
        have inner : ∃ args, Entries.get? fields "args" = some (.object args) ∧
            ∃ entry, Embeds args entry ∧ nodeCanRun entry = false := by
          by_contra none
          refine absurd (nodeCanRun_iff.mpr ⟨empty, fun args has entry embeds => ?_⟩) (by simp [fails])
          by_contra h
          exact none ⟨args, has, entry, embeds, by simpa using h⟩
        obtain ⟨args, has, entry, embeds, fails⟩ := inner
        have smaller := Nat.lt_trans embeds.sizeOf_lt (sizeOf_lt_of_mem (Entries.mem_of_get? has))
        exact ih _ (size ▸ smaller) (live.inside has embeds) fails rfl
    | _ => exact ⟨_, live, .inr rfl⟩

theorem partCanRun_iff {key : String} :
    flow.partCanRun key = true ↔
      (∀ part, flow.field? key = some part → part.array? ≠ none) ∧
        ∀ entries, flow.field? key = some (.array entries) →
          ∀ entry ∈ entries, nodeCanRun entry = true := by
  unfold partCanRun
  rcases flow.field? key with _ | part
  · simp
  · cases part <;> simp [array?, nodesCanRun_iff]

/-- In a flow that passes the check, all that the engine comes to passes. -/
theorem Live.nodeCanRun (canRun : flow.flowCanRun = true) {entry : Json} (live : flow.Live entry) :
    entry.nodeCanRun = true := by
  obtain ⟨nodes, resources⟩ := Bool.and_eq_true_iff.mp canRun
  induction live with
  | top part list mem =>
    rcases part with rfl | rfl
    · exact (partCanRun_iff.mp nodes).2 _ list _ mem
    · exact (partCanRun_iff.mp resources).2 _ list _ mem
  | inside _ has embeds outer => exact (nodeCanRun_iff.mp outer).2 _ has _ embeds

/-- A flow that fails the check has a part that is no list, or something in it is missing. -/
theorem partCanRun_eq_false {key : String} (part : key = "nodes" ∨ key = "resources")
    (fails : flow.partCanRun key = false) :
    (∃ value, flow.field? key = some value ∧ value.array? = none) ∨
      ∃ entry, flow.Live entry ∧ entry.Missing := by
  by_contra none
  obtain ⟨lists, found⟩ := not_or.mp none
  refine absurd (partCanRun_iff.mpr ⟨fun value h other => lists ⟨value, h, other⟩,
    fun entries h entry mem => ?_⟩) (by simp [fails])
  by_contra hfails
  exact found ((Live.top part h mem).exists_missing (by simpa using hfails))

/-- The run check fails exactly where a part of the flow is no list or the engine comes to something
that is missing, and a flow is checked as the JSON that it is written as. -/
theorem flowCanRun_finds_missing (value : Json) (flow : Flow) :
    (value.flowCanRun = false ↔
      (∃ key part, (key = "nodes" ∨ key = "resources") ∧ value.field? key = some part ∧
        part.array? = none) ∨
      ∃ entry, value.Live entry ∧ entry.Missing) ∧
    flow.canRun = flow.encode.flowCanRun := by
  refine ⟨⟨fun fails => ?_, ?_⟩, ?_⟩
  · have part : ∃ key, (key = "nodes" ∨ key = "resources") ∧ value.partCanRun key = false := by
      rcases Bool.and_eq_false_iff.mp fails with h | h
      · exact ⟨"nodes", .inl rfl, h⟩
      · exact ⟨"resources", .inr rfl, h⟩
    obtain ⟨key, hkey, fails⟩ := part
    exact (partCanRun_eq_false hkey fails).imp_left fun ⟨part, h, other⟩ => ⟨key, part, hkey, h, other⟩
  · rw [← Bool.not_eq_true]
    rintro (⟨key, part, hkey, found, other⟩ | ⟨entry, live, missing⟩) canRun
    · obtain ⟨nodes, resources⟩ := Bool.and_eq_true_iff.mp canRun
      rcases hkey with rfl | rfl
      · exact (partCanRun_iff.mp nodes).1 part found other
      · exact (partCanRun_iff.mp resources).1 part found other
    · exact not_missing_of_nodeCanRun (live.nodeCanRun canRun) missing
  · have lists : ∀ entries : List JsonObject, nodesCanRun (entries.map .object) =
        entries.all fun entry => nodeCanRun (.object entry) := fun entries => by
      rw [nodesCanRun_eq_all, List.all_map]
      rfl
    rw [Flow.canRun, List.all_append, ← lists, ← lists]
    rfl

/-- Resources count where a flow is embedded, which is where `nodes` is a list. -/
example : flowCanRun (.object [("nodes", .array [.object [("args", .object
    [("nodes", .object []), ("resources", .array [.object []])])]])]) = true := by
  decide

end Json

end WorkflowCompiler
