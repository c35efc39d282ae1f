import WorkflowCompiler.Proofs.Wiring.Regions

/-!
# Calls

A wiring is made by calls that add a node, add a link or fold a region. A call that fails leaves the
wiring as it is, and no call moves what was there: the nodes that stay keep their order, and new
ones come after them.
-/
namespace WorkflowCompiler

/-- A call on a wiring. -/
inductive Call where
  | addNode (id : String)
  | addLink (source target : String) (data : LinkData)
  | compress (start stop : String)
  deriving DecidableEq, Repr

namespace Wiring

/-- What a call comes to, and the wiring after it. -/
def call (w : Wiring) : Call → Except CompileError Unit × Wiring
  | .addNode id => (.ok (), w.addNode id)
  | .addLink source target data => (.ok (), w.addLink source target data)
  | .compress start stop =>
    match w.compress start stop with
    | .ok w' => (.ok (), w')
    | .error e => (.error e, w)

/-- What calls come to one after the other, and the wiring after the last one. -/
def calls (w : Wiring) : List Call → List (Except CompileError Unit) × Wiring
  | [] => ([], w)
  | c :: cs =>
    let (result, w) := w.call c
    let (results, w) := w.calls cs
    (result :: results, w)

/-- Whether a node is there before some calls and after each of them. -/
def Stays (w : Wiring) (id : String) : List Call → Prop
  | [] => id ∈ w.nodes
  | c :: cs => id ∈ w.nodes ∧ (w.call c).2.Stays id cs

theorem Stays.mem {w : Wiring} {id : String} {cs : List Call} (h : w.Stays id cs) : id ∈ w.nodes := by
  cases cs with
  | nil => exact h
  | cons => exact h.1

theorem Built.call {w : Wiring} (built : w.Built) (c : Call) : (w.call c).2.Built := by
  cases c with
  | addNode id => exact built.addNode id
  | addLink source target data => exact built.addLink source target data
  | compress start stop =>
    unfold Wiring.call
    dsimp only
    split
    · next h => exact built.compress h
    · exact built

theorem Built.calls {w : Wiring} (built : w.Built) (cs : List Call) : (w.calls cs).2.Built := by
  induction cs generalizing w with
  | nil => exact built
  | cons c cs ih => exact ih (built.call c)

/-! ## The order of the nodes -/

theorem exists_nodes_addNode (w : Wiring) (id : String) :
    ∃ new, (w.addNode id).nodes = w.nodes ++ new := by
  unfold addNode
  split
  · exact ⟨[], by simp⟩
  · exact ⟨[id], rfl⟩

/-- A call puts new nodes behind those that are there, or takes some away. -/
theorem Valid.nodes_call {w : Wiring} (v : w.Valid) (c : Call) :
    (∃ new, (w.call c).2.nodes = w.nodes ++ new) ∨
      ∃ keep, (w.call c).2.nodes = w.nodes.filter keep := by
  cases c with
  | addNode id => exact .inl (w.exists_nodes_addNode id)
  | addLink source target data =>
    obtain ⟨new, h⟩ := w.exists_nodes_addNode source
    obtain ⟨new', h'⟩ := (w.addNode source).exists_nodes_addNode target
    refine .inl ⟨new ++ new', ?_⟩
    rw [← List.append_assoc, ← h, ← h']
    exact nodes_place _ source target data
  | compress start stop =>
    unfold call
    dsimp only
    split
    · next h => exact .inr ⟨_, (v.folds h).nodes⟩
    · exact .inl ⟨[], by simp⟩

section Order

variable {w : Wiring} {a b : String}

/-- A call keeps the order of two nodes that are there before and after it. -/
theorem Valid.idxOf_call_lt (v : w.Valid) (c : Call) (ha : a ∈ w.nodes) (hb : b ∈ w.nodes)
    (ha' : a ∈ (w.call c).2.nodes) (h : w.nodes.idxOf a < w.nodes.idxOf b) :
    (w.call c).2.nodes.idxOf a < (w.call c).2.nodes.idxOf b := by
  rcases v.nodes_call c with ⟨new, hnodes⟩ | ⟨keep, hnodes⟩
  · rwa [hnodes, List.idxOf_append_of_mem ha, List.idxOf_append_of_mem hb]
  · rw [hnodes] at ha' ⊢
    exact idxOf_filter_lt (List.mem_filter.mp ha').2 h

/-- Nodes that are there all along keep their order. -/
theorem Built.idxOf_calls_lt (built : w.Built) {cs : List Call} (ha : w.Stays a cs)
    (hb : w.Stays b cs) (h : w.nodes.idxOf a < w.nodes.idxOf b) :
    (w.calls cs).2.nodes.idxOf a < (w.calls cs).2.nodes.idxOf b := by
  induction cs generalizing w with
  | nil => exact h
  | cons c cs ih =>
    have hstep := built.valid.idxOf_call_lt c ha.mem hb.mem ha.2.mem h
    exact ih (built.call c) ha.2 hb.2 hstep

end Order

end Wiring

end WorkflowCompiler
