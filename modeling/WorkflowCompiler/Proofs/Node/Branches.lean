import Mathlib.Data.List.Nodup
import WorkflowCompiler.Proofs.Node.Bare

/-!
# Bodies of branches

A fork starts with empty branches. Each fold of its block gives every declared case the body found
under its key, and nothing else ever becomes a member of a branch.
-/
namespace WorkflowCompiler

namespace Entries

variable {α : Type}

theorem mem_values_insert {entries : Entries α} {key : String} {value other : α}
    (h : other ∈ values (insert entries key value)) : other = value ∨ other ∈ values entries := by
  induction entries with
  | nil => exact .inl (by simpa [insert, values] using h)
  | cons e rest ih =>
    by_cases he : e.1 = key
    · have h : other = value ∨ other ∈ values rest := by simpa [insert, values, he] using h
      exact h.imp_right (List.mem_cons_of_mem _)
    · have h : other = e.2 ∨ other ∈ values (insert rest key value) := by
        simpa [insert, values, he] using h
      rcases h with h | h
      · exact .inr (h ▸ List.mem_cons_self)
      · exact (ih h).imp_right (List.mem_cons_of_mem _)

theorem mem_values_of_get? {entries : Entries α} {key : String} {value : α}
    (h : get? entries key = some value) : value ∈ values entries :=
  List.mem_map_of_mem (f := Prod.snd) (mem_of_get? h)

end Entries

namespace Branching

theorem members_ofCases (cases : List ForkCase) : (ofCases cases).members = [] := by
  refine List.flatten_eq_nil_iff.mpr fun ids hids => ?_
  obtain ⟨key, hkey⟩ := (Entries.mem_values_iff (Entries.nodup_keys_ofPairs _) ids).mp hids
  obtain ⟨c, -, hc⟩ := List.mem_map.mp (Entries.mem_of_get?_ofPairs hkey)
  exact (Prod.mk.inj hc).2.symm

theorem mem_ports_ofCases {cases : List ForkCase} {port : String} :
    port ∈ (ofCases cases).leaving.keys ↔ port ∈ cases.map ForkCase.port := by
  rw [← Entries.contains_iff]
  refine (Entries.get?_ofPairs_isSome _ port).trans ?_
  rw [List.map_map]
  rfl

/-- To begin with, no connection leaves a port. -/
theorem get?_leaving_ofCases {cases : List ForkCase} {port : String}
    (h : port ∈ cases.map ForkCase.port) : (ofCases cases).leaving.get? port = some none := by
  have hcontains := (Entries.contains_iff _ _).mpr (mem_ports_ofCases.mpr h)
  obtain ⟨edge, hedge⟩ := Entries.exists_get?_of_contains hcontains
  obtain ⟨c, -, hc⟩ := List.mem_map.mp (Entries.mem_of_get?_ofPairs hedge)
  rw [hedge, ← (Prod.mk.inj hc).2]

/-- A declared port leads to a declared key. -/
theorem keyOf?_mem {b : Branching} {port : String} (h : port ∈ b.cases.map ForkCase.port) :
    (b.keyOf? port).getD "" ∈ b.cases.map ForkCase.key := by
  unfold keyOf?
  rcases hf : b.cases.find? (fun c => c.port = port) with _ | c
  · obtain ⟨c, hc, rfl⟩ := List.mem_map.mp h
    simpa using List.find?_eq_none.mp hf c hc
  · rw [hf]
    exact List.mem_map_of_mem (List.mem_of_find?_eq_some hf)

/-- With distinct ports the port of a case leads to its key. -/
theorem keyOf?_port {b : Branching} (nodup : (b.cases.map ForkCase.port).Nodup) {c : ForkCase}
    (h : c ∈ b.cases) : b.keyOf? c.port = some c.key := by
  unfold keyOf?
  cases hf : b.cases.find? fun d => d.port = c.port with
  | none => simpa using List.find?_eq_none.mp hf c h
  | some d =>
    have hport : d.port = c.port := by simpa using List.find?_some hf
    rw [List.inj_on_of_nodup_map nodup (List.mem_of_find?_eq_some hf) h hport]
    rfl

theorem mem_members_of_branch {b : Branching} {key id : String} (h : id ∈ b.branch key) :
    id ∈ b.members := by
  unfold branch at h
  rcases hb : b.branches.get? key with _ | ids
  · simp [hb] at h
  · have hid : id ∈ ids := by simpa [hb] using h
    exact List.mem_flatten.mpr ⟨ids, Entries.mem_values_of_get? hb, hid⟩

theorem mem_values_assignTo {cases : List ForkCase} {bodies branches : Entries (List String)}
    {ids : List String} (h : ids ∈ (assignTo cases bodies branches).values) :
    ids = [] ∨ ids ∈ bodies.values ∨ ids ∈ branches.values := by
  induction cases generalizing bodies branches with
  | nil => exact .inr (.inr h)
  | cons c cases ih =>
    rcases ih h with h | h | h
    · exact .inl h
    · exact .inr (.inl (((bodies.erase_sublist c.key).map Prod.snd).subset h))
    · rcases Entries.mem_values_insert h with h | h
      · rcases hb : bodies.get? c.key with _ | body
        · exact .inl (by simpa [hb] using h)
        · have hids : ids = body := by simpa [hb] using h
          exact .inr (.inl (hids ▸ Entries.mem_values_of_get? hb))
      · exact .inr (.inr h)

/-- Only what is in some body becomes a member of a branch. -/
theorem mem_members_assign {b : Branching} {bodies : Entries (List String)} {id : String}
    (h : id ∈ (b.assign bodies).members) :
    (∃ body ∈ bodies.values, id ∈ body) ∨ id ∈ b.members := by
  obtain ⟨ids, hids, hid⟩ := List.mem_flatten.mp h
  rcases mem_values_assignTo hids with rfl | hids | hids
  · simp at hid
  · exact .inl ⟨ids, hids, hid⟩
  · exact .inr (List.mem_flatten.mpr ⟨ids, hids, hid⟩)

/-- With distinct keys every case gets exactly the body under its key. -/
theorem get?_assignTo {cases : List ForkCase} (nodup : (cases.map ForkCase.key).Nodup)
    (bodies branches : Entries (List String)) (key : String) :
    (assignTo cases bodies branches).get? key =
      if key ∈ cases.map ForkCase.key then some ((bodies.get? key).getD [])
      else branches.get? key := by
  induction cases generalizing bodies branches with
  | nil => simp [assignTo]
  | cons c cases ih =>
    obtain ⟨hc, nodup⟩ := List.nodup_cons.mp nodup
    rw [assignTo, ih nodup, Entries.get?_insert]
    by_cases he : key = c.key
    · subst he
      simp [hc]
    · rw [Entries.get?_erase_of_ne bodies he]
      simp [he]

theorem branch_assign {b : Branching} (nodup : (b.cases.map ForkCase.key).Nodup)
    (bodies : Entries (List String)) {key : String} (h : key ∈ b.cases.map ForkCase.key) :
    (b.assign bodies).branch key = (bodies.get? key).getD [] := by
  unfold branch assign
  rw [get?_assignTo nodup, if_pos h]
  rfl

end Branching

/-- The branches of a fork hold its members. -/
theorem Node.mem_members_of_branch {node : Node} {b : Branching}
    (hb : node.body.branching? = some b) {key id : String} (h : id ∈ b.branch key) :
    id ∈ node.members := by
  unfold Node.members
  rw [hb]
  exact Branching.mem_members_of_branch h

end WorkflowCompiler
