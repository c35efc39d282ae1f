import WorkflowCompiler.Proofs.Node.Emitting

/-!
# What forks embed

The mapping of a fork has a branch for each of its keys, which lists the mappings of the nodes in
the branch.
-/
namespace WorkflowCompiler

/-- The branch of a fork under a key, in the mapping of the fork: among its `nodes`, or next to its
other arguments where there are none. -/
def Flow.branch? (entry : JsonObject) (key : String) : Option (List Json) := do
  let args ← (← Entries.get? entry "args").object?
  let branches := ((Entries.get? args "nodes").bind Json.object?).getD args
  (← Entries.get? branches key).array?

namespace Branching

theorem mem_emittedKeys {b : Branching} {key : String} :
    key ∈ b.emittedKeys ↔ key ∈ b.branches.keys := by
  unfold emittedKeys
  rw [List.mem_append, List.mem_filter, List.mem_filter]
  by_cases h : key = CaseKey.fallback <;> simp [h]

theorem branch_of_get? {b : Branching} {key : String} {ids : List String}
    (h : b.branches.get? key = some ids) : b.branch key = ids := by
  unfold branch
  rw [h]
  rfl

end Branching

namespace Registry

theorem get?_mapM {keys : List String} {f : String → Except CompileError Json} {out : JsonObject}
    (h : (keys.mapM fun key => return (key, ← f key)) = .ok out) {key : String} (hk : key ∈ keys)
    {value : Json} (hv : f key = .ok value) : out.get? key = some value := by
  induction keys generalizing out with
  | nil => cases hk
  | cons k keys ih =>
    rw [List.mapM_cons] at h
    obtain ⟨entry, hentry, h⟩ := bind_eq_ok.mp h
    obtain ⟨rest, hrest, h⟩ := bind_eq_ok.mp h
    obtain ⟨found, hfound, hentry⟩ := bind_eq_ok.mp hentry
    obtain rfl := pure_eq_ok.mp h
    obtain rfl := pure_eq_ok.mp hentry
    unfold Entries.get?
    by_cases he : k = key
    · subst he
      rw [if_pos rfl, Except.ok.inj (hfound.symm.trans hv)]
    · rw [if_neg he]
      exact ih hrest ((List.mem_cons.mp hk).resolve_left (Ne.symm he))

/-- `r.Lists emit ids entries`: the entries are what is emitted for the registered nodes with these ids,
in order and without the nodes of which nothing is emitted. -/
inductive Lists (r : Registry) (emit : Node → Emitted) : List String → List JsonObject → Prop
  | nil : Lists r emit [] []
  | skip {id : String} {node : Node} {ids : List String} {entries : List JsonObject}
      (found : r.get? id = some node) (structural : node.isStructural = true)
      (rest : Lists r emit ids entries) : Lists r emit (id :: ids) entries
  | emit {id : String} {node : Node} {fields : JsonObject} {ids : List String}
      {entries : List JsonObject} (found : r.get? id = some node)
      (visible : node.isStructural = false) (emitted : emit node = .ok fields)
      (rest : Lists r emit ids entries) : Lists r emit (id :: ids) (fields :: entries)

section Branch

variable {r : Registry} {emit : Node → Emitted} {fork : String}

theorem emitBranch_eq_ok {ids : List String} {items : List Json} :
    emitBranch r emit fork ids = .ok items ↔
      ∃ entries, r.Lists emit ids entries ∧ items = entries.map .object := by
  induction ids generalizing items with
  | nil =>
    constructor
    · intro h
      exact ⟨[], .nil, (Except.ok.inj h).symm⟩
    · rintro ⟨entries, h, rfl⟩
      cases h
      rfl
  | cons id ids ih =>
    unfold emitBranch
    constructor
    · intro h
      split at h
      · exact absurd h throw_ne_ok
      · next node found =>
        split at h
        · next structural =>
          obtain ⟨entries, rest, rfl⟩ := ih.mp h
          exact ⟨entries, .skip found structural rest, rfl⟩
        · next visible =>
          obtain ⟨fields, emitted, h⟩ := bind_eq_ok.mp h
          obtain ⟨items, hitems, h⟩ := bind_eq_ok.mp h
          obtain ⟨entries, rest, rfl⟩ := ih.mp hitems
          exact ⟨fields :: entries, .emit found (by simpa using visible) emitted rest,
            (pure_eq_ok.mp h).symm⟩
    · rintro ⟨entries, h, rfl⟩
      cases h with
      | skip found structural rest =>
        simp only [found, structural, if_true]
        exact ih.mpr ⟨entries, rest, rfl⟩
      | emit found visible emitted rest =>
        simp only [found, visible, Bool.false_eq_true, if_false]
        exact bind_eq_ok.mpr ⟨_, emitted, bind_eq_ok.mpr ⟨_, ih.mpr ⟨_, rest, rfl⟩, rfl⟩⟩

theorem emitCases_eq_ok {b : Branching} {cases : JsonObject} :
    emitCases r emit fork b = .ok cases ↔
      List.Forall₂ (fun key entry => ∃ entries, r.Lists emit (b.branch key) entries ∧
        entry = (key, .array (entries.map .object))) b.emittedKeys cases := by
  have each : ∀ key entry, (do
      return (key, .array (← emitBranch r emit fork (b.branch key))) : Except CompileError _) =
        .ok entry ↔ ∃ entries, r.Lists emit (b.branch key) entries ∧
          entry = (key, Json.array (entries.map .object)) := by
    intro key entry
    constructor
    · intro h
      obtain ⟨items, hitems, h⟩ := bind_eq_ok.mp h
      obtain ⟨entries, lists, rfl⟩ := emitBranch_eq_ok.mp hitems
      exact ⟨entries, lists, (pure_eq_ok.mp h).symm⟩
    · rintro ⟨entries, lists, rfl⟩
      exact bind_eq_ok.mpr ⟨_, emitBranch_eq_ok.mpr ⟨entries, lists, rfl⟩, rfl⟩
  unfold emitCases
  rw [mapM_eq_ok]
  simp only [each]

theorem keys_of_emitCases {b : Branching} {cases : JsonObject}
    (h : emitCases r emit fork b = .ok cases) : cases.keys = b.emittedKeys := by
  replace h := emitCases_eq_ok.mp h
  generalize b.emittedKeys = keys at h
  induction h with
  | nil => rfl
  | cons first _ ih =>
    obtain ⟨_, -, rfl⟩ := first
    exact congrArg (_ :: ·) ih

/-- A branch of nodes that are all visible is what they emit, in order. -/
theorem lists_of_forall₂ {ids : List String} {entries : List JsonObject}
    (h : List.Forall₂ (fun id fields => ∃ node, r.get? id = some node ∧
      node.isStructural = false ∧ emit node = .ok fields) ids entries) :
    r.Lists emit ids entries := by
  induction h with
  | nil => exact .nil
  | cons first _ ih =>
    obtain ⟨node, found, visible, emitted⟩ := first
    exact .emit found visible emitted ih

/-- Whatever is in a branch and emitted is in the branch as it is emitted. -/
theorem Lists.mem {ids : List String} {entries : List JsonObject} (h : r.Lists emit ids entries)
    {id : String} (hid : id ∈ ids) {node : Node} (hn : r.get? id = some node)
    (visible : node.isStructural = false) : ∃ fields, emit node = .ok fields ∧ fields ∈ entries := by
  induction h with
  | nil => cases hid
  | skip found structural _ ih =>
    rcases List.mem_cons.mp hid with rfl | hid
    · obtain rfl := Option.some.inj (hn.symm.trans found)
      cases visible.symm.trans structural
    · exact ih hid
  | emit found _ emitted _ ih =>
    rcases List.mem_cons.mp hid with rfl | hid
    · obtain rfl := Option.some.inj (hn.symm.trans found)
      exact ⟨_, emitted, List.mem_cons_self⟩
    · obtain ⟨fields, emitted, mem⟩ := ih hid
      exact ⟨fields, emitted, List.mem_cons_of_mem _ mem⟩

/-- Each key of a fork has its branch among those that are emitted. -/
theorem get?_emitCases {b : Branching} {cases : JsonObject}
    (h : emitCases r emit fork b = .ok cases) {key : String} {ids : List String}
    (held : b.branches.get? key = some ids) {items : List Json}
    (emitted : emitBranch r emit fork ids = .ok items) :
    Entries.get? cases key = some (.array items) := by
  have hkey : key ∈ b.emittedKeys :=
    Branching.mem_emittedKeys.mpr ((Entries.contains_iff _ _).mp (Entries.contains_of_get? held))
  have hbranch : (emitBranch r emit fork (b.branch key)).map Json.array = .ok (.array items) := by
    rw [Branching.branch_of_get? held, emitted]
    rfl
  refine get?_mapM (f := fun key => (emitBranch r emit fork (b.branch key)).map Json.array) ?_ hkey hbranch
  rw [← h]
  unfold emitCases
  congr 1
  funext k
  cases emitBranch r emit fork (b.branch k) <;> rfl

/-- The arguments of a node as they stand in its mapping. -/
def reported (args : JsonObject) : JsonObject :=
  Entries.insert args "_lazyllm_enable_report" (.bool true)

theorem branch?_frame (backflow : Bool) (node : Node) (args : JsonObject) (key : String) :
    Flow.branch? (frame backflow node args) key =
      (Entries.get? (((Entries.get? (reported args) "nodes").bind Json.object?).getD
        (reported args)) key).bind Json.array? := by
  unfold Flow.branch? reported
  simp [frame, Entries.get?, Json.object?]

/-- How the branches of a fork stand among its arguments: two of them by name, or all by key. -/
inductive Embeds (r : Registry) (emit : Node → Emitted) (fork : Node) (b : Branching)
    (args : JsonObject) : Prop
  | truth {yes no : List Json} (kind : fork.body.kind? = some .ifs)
      (hyes : emitBranch r emit fork.id (b.branch "true") = .ok yes)
      (hno : emitBranch r emit fork.id (b.branch "false") = .ok no)
      (nodes : args.get? "nodes" = none) (first : args.get? "true" = some (.array yes))
      (second : args.get? "false" = some (.array no)) : Embeds r emit fork b args
  | cases {cases : JsonObject}
      (kind : fork.body.kind? = some .switch ∨ fork.body.kind? = some .intention)
      (emitted : emitCases r emit fork.id b = .ok cases)
      (nodes : args.get? "nodes" = some (.object cases)) : Embeds r emit fork b args

theorem embeds_of_args {node : Node} {b : Branching} (hb : node.body.branching? = some b)
    {args : JsonObject} (hargs : Registry.args r emit node = .ok args) :
    Embeds r emit node b (reported args) := by
  unfold Registry.args at hargs
  cases hbody : node.body with
  | ifs cond full c =>
    rw [hbody] at hb hargs
    obtain rfl : c = b := Option.some.inj hb
    obtain ⟨yes, hyes, hargs⟩ := bind_eq_ok.mp hargs
    obtain ⟨no, hno, hargs⟩ := bind_eq_ok.mp hargs
    obtain rfl := pure_eq_ok.mp hargs
    exact .truth (by rw [hbody]; rfl) hyes hno rfl rfl rfl
  | switch conversion full c =>
    rw [hbody] at hb hargs
    obtain rfl : c = b := Option.some.inj hb
    obtain ⟨cases, hcases, hargs⟩ := bind_eq_ok.mp hargs
    obtain rfl := pure_eq_ok.mp hargs
    exact .cases (.inl (by rw [hbody]; rfl)) hcases rfl
  | intention baseModel prompt c =>
    rw [hbody] at hb hargs
    obtain rfl : c = b := Option.some.inj hb
    obtain ⟨cases, hcases, hargs⟩ := bind_eq_ok.mp hargs
    obtain rfl := pure_eq_ok.mp hargs
    exact .cases (.inr (by rw [hbody]; rfl)) hcases rfl
  | _ =>
    rw [hbody] at hb
    cases hb

/-- The branch of a key in the mapping of a fork is what the nodes of the branch emit. -/
theorem branch?_of_args {backflow : Bool} {node : Node} {b : Branching}
    (hb : node.body.branching? = some b) {args : JsonObject}
    (hargs : Registry.args r emit node = .ok args) {key : String} {ids : List String}
    (held : b.branches.get? key = some ids)
    (truth : node.body.kind? = some .ifs → key = "true" ∨ key = "false") {items : List Json}
    (emitted : emitBranch r emit node.id ids = .ok items) :
    Flow.branch? (frame backflow node args) key = some items := by
  have hbranch := Branching.branch_of_get? held
  rw [branch?_frame]
  cases embeds_of_args hb hargs with
  | truth kind hyes hno nodes first second =>
    obtain rfl | rfl := truth kind
    · rw [hbranch, emitted] at hyes
      obtain rfl := Except.ok.inj hyes
      simp [nodes, first, Json.array?]
    · rw [hbranch, emitted] at hno
      obtain rfl := Except.ok.inj hno
      simp [nodes, second, Json.array?]
  | cases _ hcases nodes =>
    have hkey := get?_emitCases hcases held emitted
    simp [nodes, hkey, Json.object?, Json.array?]

end Branch

end Registry

end WorkflowCompiler
