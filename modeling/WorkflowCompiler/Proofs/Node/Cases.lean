import WorkflowCompiler.Proofs.Node.Embedding
import WorkflowCompiler.Proofs.Node.Kinds

/-!
# Cases as they are emitted

A switch or an intention is emitted with one body for each key that its ports declare, in the order
in which the keys were first declared, and with the body of the default behind them. Each body lists
what is emitted for the nodes in its branch.
-/
namespace WorkflowCompiler

namespace Branching

/-- Handing out bodies gives no key to branches that each case has a branch in. -/
theorem keys_assignTo {cases : List ForkCase} {bodies branches : Entries (List String)}
    (declared : ∀ c ∈ cases, c.key ∈ branches.keys) :
    (assignTo cases bodies branches).keys = branches.keys := by
  induction cases generalizing bodies branches with
  | nil => rfl
  | cons c cases ih =>
    have same : (branches.insert c.key ((bodies.get? c.key).getD [])).keys = branches.keys := by
      rw [Entries.keys_insert, if_pos (declared c List.mem_cons_self)]
    rw [assignTo, ih fun d hd => same ▸ declared d (List.mem_cons_of_mem _ hd), same]

/-- Whether a fork has one branch for each key of its cases, in the order of the cases, and no other
branch. -/
structure Keyed (b : Branching) : Prop where
  keys : b.branches.keys = (b.cases.map ForkCase.key).eraseDups
  distinct : b.branches.keys.Nodup

theorem keyed_ofCases (cases : List ForkCase) : (ofCases cases).Keyed where
  keys := by
    show Entries.keys (Entries.ofPairs _) = _
    rw [Entries.keys_ofPairs, List.map_map]
    rfl
  distinct := Entries.nodup_keys_ofPairs _

theorem Keyed.assign {b : Branching} (h : b.Keyed) (bodies : Entries (List String)) :
    (b.assign bodies).Keyed := by
  have same : (b.assign bodies).branches.keys = b.branches.keys := keys_assignTo fun c hc => by
    rw [h.keys, List.mem_eraseDups]
    exact List.mem_map_of_mem hc
  exact ⟨same.trans h.keys, same ▸ h.distinct⟩

/-- A default that is not declared comes behind the declared keys. -/
theorem keys_withDefault (cases : List ForkCase) :
    ((withDefault cases).map ForkCase.key).eraseDups =
      (cases.map ForkCase.key).eraseDups ++
        if CaseKey.fallback ∈ cases.map ForkCase.key then [] else [CaseKey.fallback] := by
  have any : (cases.any fun c => c.key = CaseKey.fallback) = true ↔
      CaseKey.fallback ∈ cases.map ForkCase.key := by simp
  unfold withDefault
  simp only [any]
  split
  · exact (List.append_nil _).symm
  · next h =>
    have new : [CaseKey.fallback].removeAll (cases.map ForkCase.key) = [CaseKey.fallback] :=
      List.filter_eq_self.mpr fun key hkey => by simpa [List.mem_singleton.mp hkey] using h
    rw [List.map_append, List.eraseDups_append]
    exact congrArg (_ ++ List.eraseDups ·) new

/-- What a fork with a default emits: the keys that it declares explicitly, then the default. -/
theorem Keyed.emittedKeys {b : Branching} (h : b.Keyed) {cases : List ForkCase}
    (declared : b.cases = withDefault cases) :
    b.emittedKeys = ((cases.map ForkCase.key).eraseDups.filter fun key => key ≠ CaseKey.fallback) ++
      [CaseKey.fallback] := by
  have keys := h.keys
  rw [declared, keys_withDefault] at keys
  have has : CaseKey.fallback ∈ b.branches.keys := by
    rw [keys, List.mem_append, List.mem_eraseDups]
    by_cases old : CaseKey.fallback ∈ cases.map ForkCase.key
    · exact .inl old
    · exact .inr (by rw [if_neg old]; exact List.mem_singleton_self _)
  unfold Branching.emittedKeys
  congr 1
  · rw [keys, List.filter_append]
    split <;> simp
  · rw [List.filter_eq, List.count_eq_one_of_mem h.distinct has]
    rfl

end Branching

namespace Registry

section Branch

variable {r : Registry} {emit emit' : Node → Emitted} {fork : String}

variable (keeps : ∀ node fields, emit node = .ok fields → emit' node = .ok fields)

include keeps

theorem Lists.mono {ids : List String} {entries : List JsonObject} (h : r.Lists emit ids entries) :
    r.Lists emit' ids entries := by
  induction h with
  | nil => exact .nil
  | skip found structural _ ih => exact .skip found structural ih
  | emit found visible emitted _ ih => exact .emit found visible (keeps _ _ emitted) ih

theorem emitBranch_mono {ids : List String} {items : List Json}
    (h : emitBranch r emit fork ids = .ok items) : emitBranch r emit' fork ids = .ok items := by
  obtain ⟨entries, lists, rfl⟩ := emitBranch_eq_ok.mp h
  exact emitBranch_eq_ok.mpr ⟨entries, lists.mono keeps, rfl⟩

theorem emitCases_mono {b : Branching} {cases : JsonObject}
    (h : emitCases r emit fork b = .ok cases) : emitCases r emit' fork b = .ok cases :=
  emitCases_eq_ok.mpr <| (emitCases_eq_ok.mp h).imp fun _ _ ⟨entries, lists, he⟩ =>
    ⟨entries, lists.mono keeps, he⟩

/-- Arguments that are found are still found when more nodes can be emitted. -/
theorem args_mono {node : Node} {fields : JsonObject} (h : args r emit node = .ok fields) :
    args r emit' node = .ok fields := by
  unfold args at h ⊢
  cases hb : node.body with
  | ifs cond full b =>
    rw [hb] at h
    obtain ⟨yes, hyes, h⟩ := bind_eq_ok.mp h
    obtain ⟨no, hno, h⟩ := bind_eq_ok.mp h
    exact bind_eq_ok.mpr ⟨yes, emitBranch_mono keeps hyes,
      bind_eq_ok.mpr ⟨no, emitBranch_mono keeps hno, h⟩⟩
  | switch _ _ b | intention _ _ b =>
    rw [hb] at h
    obtain ⟨nodes, hnodes, h⟩ := bind_eq_ok.mp h
    exact bind_eq_ok.mpr ⟨nodes, emitCases_mono keeps hnodes, h⟩
  | _ =>
    rw [hb] at h
    exact h

end Branch

section Bounds

variable {r : Registry} {backflow : Bool}

theorem emitWithin_of_inside {depth depth' : Nat}
    (keeps : ∀ node fields, emitInside r backflow depth node = .ok fields →
      emitInside r backflow depth' node = .ok fields) {node : Node} {fields : JsonObject}
    (h : emitWithin r backflow depth node = .ok fields) :
    emitWithin r backflow depth' node = .ok fields := by
  rw [emitWithin_unfold] at h ⊢
  by_cases hidden : (node.isStructural || node.isFailed) = true
  · rwa [if_pos hidden] at h ⊢
  · rw [if_neg hidden] at h ⊢
    obtain ⟨args, hargs, rfl⟩ := map_eq_ok.mp h
    exact map_eq_ok.mpr ⟨args, args_mono keeps hargs, rfl⟩

/-- What is emitted within a bound is emitted within the next. -/
theorem emitWithin_succ {depth : Nat} {node : Node} {fields : JsonObject}
    (h : emitWithin r backflow depth node = .ok fields) :
    emitWithin r backflow (depth + 1) node = .ok fields := by
  induction depth generalizing node fields with
  | zero => exact emitWithin_of_inside (fun _ _ none => by cases none) h
  | succ depth ih =>
    refine emitWithin_of_inside (fun _ _ inner => ?_) h
    exact ih inner

/-- Whatever registry a node is emitted in, its mapping frames arguments that embed what is emitted
for other nodes. -/
theorem exists_args_of_emit {node : Node} {fields : JsonObject}
    (h : emit r backflow node = .ok fields) (visible : node.isStructural = false)
    (built : node.isFailed = false) :
    ∃ args, Registry.args r (emit r backflow) node = .ok args ∧ fields = frame backflow node args := by
  unfold emit at h
  rw [emitWithin_unfold, if_neg (by simp [visible, built])] at h
  obtain ⟨args, hargs, rfl⟩ := map_eq_ok.mp h
  exact ⟨args, args_mono (fun _ _ h => emitWithin_succ h) hargs, rfl⟩

end Bounds

/-- A switch or an intention has its cases among its arguments. -/
theorem Embeds.exists_cases {r : Registry} {emit : Node → Emitted} {fork : Node} {b : Branching}
    {args : JsonObject} (h : Embeds r emit fork b args)
    (judges : fork.body.kind? = some .switch ∨ fork.body.kind? = some .intention) :
    ∃ cases, emitCases r emit fork.id b = .ok cases ∧ args.get? "nodes" = some (.object cases) := by
  cases h with
  | truth kind =>
    rcases judges with judges | judges <;> cases kind.symm.trans judges
  | cases _ emitted nodes => exact ⟨_, emitted, nodes⟩

end Registry

namespace Node

/-- The node after bodies have been handed to its cases, once for each of these. -/
def assignAll (node : Node) (bodies : List (Entries (List String))) : Node :=
  bodies.foldl (fun node bodies => node.updateBranching fun b => b.assign bodies) node

/-- The keys that the ports of a switch or an intention declare, in their order. -/
def portKeys (node : Node) : NodeKind → List String
  | .switch => node.outputPorts.map fun port => CaseKey.coerce (CaseKey.ofPort port) node.conversion
  | .intention => node.outputPorts.map CaseKey.ofPort
  | _ => []

theorem declaredCases_eq (node : Node) {kind : NodeKind}
    (judges : kind = .switch ∨ kind = .intention) :
    ∃ cases, node.declaredCases kind = Branching.withDefault cases ∧
      cases.map ForkCase.key = node.portKeys kind := by
  rcases judges with rfl | rfl
  · exact ⟨_, rfl, List.map_map⟩
  · exact ⟨_, rfl, List.map_map⟩

/-- Whether a node is a switch or an intention with a branch for each key of these cases. -/
structure Judges (node : Node) (cases : List ForkCase) : Prop where
  kind : node.body.kind? = some .switch ∨ node.body.kind? = some .intention
  branching : ∃ b, node.body.branching? = some b ∧ b.Keyed ∧ b.cases = cases

theorem judges_of_buildPlain {c : Collaborators} {node fork : Node} {kind : NodeKind}
    (judges : kind = .switch ∨ kind = .intention) (built : buildPlain c node kind = .ok fork) :
    fork.Judges (node.declaredCases kind) := by
  have makes := makes_of_buildPlain built
  have branches : fork.body.branching?.isSome = true := by
    rw [NodeBody.branching?_isSome, makes.body]
    rcases judges with rfl | rfl <;> rfl
  obtain ⟨b, hb⟩ := Option.isSome_iff_exists.mp branches
  obtain rfl := makes.branching b hb
  refine ⟨?_, _, hb, Branching.keyed_ofCases _, rfl⟩
  rw [makes.body]
  exact judges.imp (congrArg some) (congrArg some)

theorem Judges.assign {node : Node} {cases : List ForkCase} (h : node.Judges cases)
    (bodies : Entries (List String)) :
    (node.updateBranching fun b => b.assign bodies).Judges cases := by
  obtain ⟨b, hb, keyed, hcases⟩ := h.branching
  have same : (node.updateBranching fun b => b.assign bodies).bare = node.bare :=
    node.bare_updateBranching fun _ => rfl
  refine ⟨?_, b.assign bodies, ?_, keyed.assign bodies, hcases⟩
  · rw [kind?_of_bare same]
    exact h.kind
  · unfold updateBranching
    simp [hb]

theorem Judges.assignAll {node : Node} {cases : List ForkCase} (h : node.Judges cases)
    (bodies : List (Entries (List String))) : (node.assignAll bodies).Judges cases := by
  induction bodies generalizing node with
  | nil => exact h
  | cons first bodies ih => exact ih (h.assign first)

theorem isStructural_of_build {nested : NestedCompiler} {raw : EditorNode} {made : Node}
    {s t : Session} (run : build nested raw s = (.ok made, t)) :
    made.isStructural = made.isMarker := by
  obtain ⟨kind, hk, makes⟩ := (makes_of_build nested raw s).of_ok run
  exact isStructural_of_kind (by rw [makes.body, makes.lowerKind, hk])

end Node

/-- Whatever is handed to the cases of a switch or an intention, it is emitted with the keys that its
ports declare, each once and in the order in which they were first declared, and with the default
behind them. Under each key stands what is emitted for the nodes in this branch, in order and without
structural nodes; these are the starts, ends and aggregators. -/
theorem Registry.emits_all_cases {c : Collaborators} {node fork : Node} {kind : NodeKind}
    (judges : kind = .switch ∨ kind = .intention) (built : Node.buildPlain c node kind = .ok fork)
    (bodies : List (Entries (List String))) (r : Registry) (backflow : Bool) {fields : JsonObject}
    (emitted : r.emit backflow (fork.assignAll bodies) = .ok fields) :
    (∃ (b : Branching) (args cases : JsonObject),
      (fork.assignAll bodies).body.branching? = some b ∧
      fields.get? "args" = some (.object args) ∧ args.get? "nodes" = some (.object cases) ∧
      Entries.keys cases =
        ((node.portKeys kind).eraseDups.filter fun key => key ≠ CaseKey.fallback) ++
          [CaseKey.fallback] ∧
      ∀ key value, (key, value) ∈ cases →
        ∃ entries, r.Lists (r.emit backflow) (b.branch key) entries ∧
          value = Json.array (entries.map .object)) ∧
    ∀ (nested : NestedCompiler) (raw : EditorNode) (s : Session) (made : Node) (t : Session),
      Node.build nested raw s = (.ok made, t) → made.isStructural = made.isMarker := by
  refine ⟨?_, fun _ _ _ _ _ run => Node.isStructural_of_build run⟩
  have h := (Node.judges_of_buildPlain judges built).assignAll bodies
  obtain ⟨b, hb, keyed, hcases⟩ := h.branching
  have here : (fork.assignAll bodies).isFailed = false := by
    rw [← Bool.not_eq_true]
    intro failed
    cases (NodeBody.branching?_of_isFailed failed).symm.trans hb
  obtain ⟨args, hargs, rfl⟩ := exists_args_of_emit emitted (NodeBody.visible_of_branching hb) here
  obtain ⟨cases, emits, hnodes⟩ := (embeds_of_args hb hargs).exists_cases h.kind
  refine ⟨b, reported args, cases, hb, by simp [frame, reported, Entries.get?], hnodes, ?_, ?_⟩
  · obtain ⟨declared, hdeclared, hkeys⟩ := node.declaredCases_eq judges
    rw [← hkeys, ← keyed.emittedKeys (hcases.trans hdeclared)]
    exact keys_of_emitCases emits
  · intro key value mem
    obtain ⟨other, -, listed, lists, he⟩ := exists_of_mem_right (emitCases_eq_ok.mp emits) mem
    obtain ⟨rfl, rfl⟩ := Prod.mk.inj he
    exact ⟨listed, lists, rfl⟩

/-- A switch that declares its default first and one of its keys twice. -/
def crossroads : Node where
  id := "f"
  kind := "switch"
  lowerKind := "switch"
  outputPorts := [{ id := "p", label := some "default" }, { id := "q", cond := some (.string "b") },
    { id := "r", cond := some (.string "a") }, { id := "t", cond := some (.string "b") }]

/-- A formatter and an end. -/
def wayside : Registry :=
  [("x", (Node.ofEditor { id := "x", data := [("payload__kind", .string "formatter")] }).buildFormatter),
    ("e", { id := "e", kind := "end", lowerKind := "end" })]

/-- Bodies for the cases of `crossroads`, handed out twice. -/
def handed : List (Entries (List String)) :=
  [[("a", ["e"])], [("a", ["x", "e"]), ("default", ["x"])]]

theorem Registry.emits_all_cases_crossroads :
    ∃ fields args cases,
      wayside.emit false (crossroads.buildSwitch.assignAll handed) = .ok fields ∧
        Entries.get? fields "args" = some (.object args) ∧
        Entries.get? args "nodes" = some (.object cases) ∧
        Entries.keys cases = ["b", "a", "default"] := by
  have ok : (wayside.emit false (crossroads.buildSwitch.assignAll handed)).toOption.isSome = true := by
    decide +kernel
  rcases run : wayside.emit false (crossroads.buildSwitch.assignAll handed) with e | fields
  · rw [run] at ok
    cases ok
  have built : Node.buildPlain {} crossroads .switch = .ok crossroads.buildSwitch := rfl
  obtain ⟨⟨b, args, cases, -, hargs, hnodes, keys, -⟩, -⟩ :=
    Registry.emits_all_cases (.inl rfl) built handed _ _ run
  exact ⟨fields, args, cases, rfl, hargs, hnodes, keys.trans (by decide +kernel)⟩

end WorkflowCompiler
