import Mathlib.Data.Set.Basic
import WorkflowCompiler.Proofs.Node.Kinds
import WorkflowCompiler.Proofs.Node.Nesting
import WorkflowCompiler.Proofs.Node.Redacting

/-!
# Registries that agree

Two registries agree on a set of ids when they hold the same nodes there, but for the graphs of
hidden sub-graphs, and nothing there leads to other ids. Whatever is emitted for such an id is then
the same in both, but for the arguments of hidden sub-graphs.
-/
namespace WorkflowCompiler

open Json

/-- Whether the data of two nodes are the same but for the graph embedded in them. -/
def SameButGraph (data data' : JsonObject) : Prop :=
  ∀ key, key ≠ "config__patent_graph" → data.get? key = data'.get? key

namespace Node

theorem payload_of_sameButGraph {a b : Node} (h : SameButGraph a.data b.data) (key : String) :
    a.payload key = b.payload key := by
  have hne : payloadKey key ≠ "config__patent_graph" := by
    intro he
    have hhead := congrArg (fun text => text.toList.head?) he
    simp [payloadKey] at hhead
  unfold payload
  rw [h _ hne]

theorem payloadBool_of_sameButGraph {a b : Node} (h : SameButGraph a.data b.data) (key : String)
    (default : Bool) : a.payloadBool key default = b.payloadBool key default := by
  unfold payloadBool
  rw [payload_of_sameButGraph h]

theorem title_of_sameButGraph {a b : Node} (h : SameButGraph a.data b.data) : a.title = b.title := by
  unfold title payloadText payloadString
  rw [payload_of_sameButGraph h, h "title" (by decide)]

/-- Two nodes that are the same, or a hidden sub-graph with different graphs. -/
inductive Alike (hidden : List String) : Node → Node → Prop
  | same (node : Node) : Alike hidden node node
  | hidden (node : Node) (flavor : SubgraphFlavor) {compiled compiled' : Flow}
      {data data' : JsonObject} (mem : node.id ∈ hidden) (beside : SameButGraph data data') :
      Alike hidden { node with data, body := .subgraph flavor compiled }
        { node with data := data', body := .subgraph flavor compiled' }

namespace Alike

variable {hidden : List String} {a b : Node} (h : Alike hidden a b)

include h

theorem id : a.id = b.id := by cases h <;> rfl

theorem lowerKind : a.lowerKind = b.lowerKind := by cases h <;> rfl

theorem members : a.members = b.members := by cases h <;> rfl

theorem resourceIds : a.resourceIds = b.resourceIds := by cases h <;> rfl

theorem isFork : a.isFork = b.isFork := by cases h <;> rfl

theorem isAggregator : a.isAggregator = b.isAggregator := by cases h <;> rfl

theorem isStructural : a.isStructural = b.isStructural := by cases h <;> rfl

theorem emittedId : Flattening.emittedId a = Flattening.emittedId b := by cases h <;> rfl

theorem sortedByPort (links : List Link) :
    Flattening.sortedByPort a links = Flattening.sortedByPort b links := by cases h <;> rfl

omit h in
theorem eq_of_nil (h : Alike [] a b) : a = b := by
  cases h with
  | same => rfl
  | hidden _ _ mem => cases mem

end Alike

end Node

namespace Registry

/-- The mappings of a hidden sub-graph with different graphs differ in their arguments only. -/
theorem sameBut_frame_hidden {hidden : List String} (backflow : Bool) (node : Node)
    (flavor : SubgraphFlavor) {compiled compiled' : Flow} {data data' : JsonObject}
    (mem : node.id ∈ hidden) (beside : SameButGraph data data') (args args' : JsonObject) :
    SameBut hidden
      (frame backflow { node with data, body := .subgraph flavor compiled } args)
      (frame backflow { node with data := data', body := .subgraph flavor compiled' } args') := by
  let a : Node := { node with data, body := .subgraph flavor compiled }
  let b : Node := { node with data := data', body := .subgraph flavor compiled' }
  have hbackflow : a.payloadBool "enable_backflow" backflow =
      b.payloadBool "enable_backflow" backflow := Node.payloadBool_of_sameButGraph beside _ _
  have htitle : a.title = b.title := Node.title_of_sameButGraph beside
  have hkind : a.emittedKind = b.emittedKind := by cases flavor <;> rfl
  show redactedFields hidden (frame backflow a args) = redactedFields hidden (frame backflow b args')
  rw [redactedFields_frame_subgraph backflow (show a.body = .subgraph flavor compiled from rfl) mem,
    redactedFields_frame_subgraph backflow (show b.body = .subgraph flavor compiled' from rfl) mem]
  unfold frame
  rw [hbackflow, htitle, hkind]

section Emission

variable {hidden : List String} {r r' : Registry} {emit emit' : Node → Emitted} {fork : String}

/-- Branches correspond when the nodes in them do. -/
theorem emitBranch_corresponds {ids : List String}
    (alike : ∀ id ∈ ids, Option.Rel (Node.Alike hidden) (r.get? id) (r'.get? id))
    (inner : ∀ id ∈ ids, ∀ a b, r.get? id = some a → r'.get? id = some b →
      Corresponds (SameBut hidden) (emit a) (emit' b)) :
    Corresponds (fun items items' => redactedAll hidden items = redactedAll hidden items')
      (emitBranch r emit fork ids) (emitBranch r' emit' fork ids) := by
  induction ids with
  | nil => exact .ok rfl
  | cons id ids ih =>
    have rest := ih (fun x hx => alike x (List.mem_cons_of_mem _ hx))
      fun x hx => inner x (List.mem_cons_of_mem _ hx)
    have first := alike id List.mem_cons_self
    have here := inner id List.mem_cons_self
    unfold emitBranch
    generalize r.get? id = x, r'.get? id = y at first here
    cases first with
    | none => exact .error _
    | @some a b first =>
      dsimp only
      rw [← first.isStructural]
      split
      · exact rest
      · refine (here a b rfl rfl).bind fun fields fields' hfields => ?_
        refine rest.bind fun items items' hitems => .ok ?_
        rw [redactedAll, redactedAll, redacted_object, redacted_object, hfields, hitems]

theorem emitCases_corresponds {b : Branching}
    (branch : ∀ key, Corresponds
      (fun items items' => redactedAll hidden items = redactedAll hidden items')
      (emitBranch r emit fork (b.branch key)) (emitBranch r' emit' fork (b.branch key))) :
    Corresponds (fun cases cases' => redactedCases hidden cases = redactedCases hidden cases')
      (emitCases r emit fork b) (emitCases r' emit' fork b) := by
  have hcases := Corresponds.mapM
    (S := fun e e' : String × Json => e.1 = e'.1 ∧
      redactedBranch hidden e.2 = redactedBranch hidden e'.2)
    (f := fun key => return (key, .array (← emitBranch r emit fork (b.branch key))))
    (g := fun key => return (key, .array (← emitBranch r' emit' fork (b.branch key))))
    fun key (_ : key ∈ b.emittedKeys) => (branch key).bind fun items items' h =>
      .ok ⟨rfl, by rw [redactedBranch, redactedBranch, h]⟩
  refine hcases.mono fun cases cases' h => ?_
  induction h with
  | nil => rfl
  | cons first _ ih => rw [redactedCases, redactedCases, first.1, first.2, ih]

theorem retrieverArgs_eq {id : String} {body : RetrieverBody}
    (alike : Option.Rel (Node.Alike hidden) (r.get? body.doc) (r'.get? body.doc)) :
    retrieverArgs r id body = retrieverArgs r' id body := by
  unfold retrieverArgs
  generalize r.get? body.doc = x, r'.get? body.doc = y at alike
  cases alike with
  | none => rfl
  | some alike => cases alike <;> rfl

/-- A node with branches is emitted under the kind of a fork. -/
theorem emittedKind_mem_forkNames {node : Node} (made : node.WellMade)
    (built : node.isFailed = false) {b : Branching} (hb : node.body.branching? = some b) :
    NodeKind.forkNames.contains (Text.lower node.emittedKind) = true := by
  have hkind : node.emittedKind = node.kind := by
    unfold Node.emittedKind
    cases hbody : node.body <;> rw [hbody] at hb <;> first | rfl | cases hb
  rw [hkind, ← made.lowered]
  show node.isFork = true
  rw [← made.branching?_isSome built, hb]
  rfl

/-- The mapping of a node corresponds to that of the same node in another registry when those of the
nodes in its branches do. -/
theorem args_corresponds (backflow : Bool) {node : Node} (made : node.WellMade)
    (built : node.isFailed = false)
    (alike : ∀ id ∈ node.members ++ node.resourceIds,
      Option.Rel (Node.Alike hidden) (r.get? id) (r'.get? id))
    (inner : ∀ id ∈ node.members, ∀ a b, r.get? id = some a → r'.get? id = some b →
      Corresponds (SameBut hidden) (emit a) (emit' b)) :
    Corresponds (fun args args' => SameBut hidden (frame backflow node args) (frame backflow node args'))
      (args r emit node) (args r' emit' node) := by
  have branch : ∀ b, node.body.branching? = some b → ∀ key, Corresponds
      (fun items items' => redactedAll hidden items = redactedAll hidden items')
      (emitBranch r emit node.id (b.branch key)) (emitBranch r' emit' node.id (b.branch key)) := by
    intro b hb key
    have hmem : ∀ id ∈ b.branch key, id ∈ node.members := fun id hid =>
      Node.mem_members_of_branch hb hid
    exact emitBranch_corresponds (fun id hid => alike id (List.mem_append_left _ (hmem id hid)))
      fun id hid => inner id (hmem id hid)
  have same : ∀ x : Emitted, Corresponds
      (fun args args' => SameBut hidden (frame backflow node args) (frame backflow node args')) x x :=
    Corresponds.refl fun _ => rfl
  unfold args
  cases hbody : node.body with
  | ifs cond full b =>
    have hb : node.body.branching? = some b := by rw [hbody]; rfl
    refine (branch b hb "true").bind fun yes yes' hyes => ?_
    refine (branch b hb "false").bind fun no no' hno => .ok ?_
    refine sameBut_frame_fork backflow (emittedKind_mem_forkNames made built hb) ?_
    simp [redactedBranches, redactedBranch, hyes, hno]
  | switch _ _ b | intention _ _ b =>
    have hb : node.body.branching? = some b := by rw [hbody]; rfl
    refine (emitCases_corresponds (branch b hb)).bind fun cases cases' hcases => .ok ?_
    refine sameBut_frame_fork backflow (emittedKind_mem_forkNames made built hb) ?_
    simp [redactedBranches, redactedNodes, hcases]
  | retriever body =>
    dsimp only
    rw [retrieverArgs_eq (alike _ (List.mem_append_right _ (made.doc body hbody)))]
    exact same _
  | _ => exact same _

end Emission

/-- Registries that hold nodes alike under these ids, and nothing there leads to other ids. -/
structure Agree (hidden : List String) (ids : Set String) (r r' : Registry) : Prop where
  alike : ∀ id ∈ ids, Option.Rel (Node.Alike hidden) (r.get? id) (r'.get? id)
  members : ∀ id ∈ ids, ∀ node, r.get? id = some node → ∀ m ∈ node.members, m ∈ ids
  resources : ∀ id ∈ ids, ∀ node, r.get? id = some node → ∀ x ∈ node.resourceIds, x ∈ ids

namespace Agree

variable {hidden : List String} {ids : Set String} {r r' : Registry} (agree : Agree hidden ids r r')

include agree

theorem alike_of_get? {id : String} (hid : id ∈ ids) {a b : Node} (ha : r.get? id = some a)
    (hb : r'.get? id = some b) : Node.Alike hidden a b := by
  have h := agree.alike id hid
  rw [ha, hb] at h
  cases h with
  | some h => exact h

theorem exists_get? {id : String} (hid : id ∈ ids) {a : Node} (ha : r.get? id = some a) :
    ∃ b, r'.get? id = some b ∧ Node.Alike hidden a b := by
  have h := agree.alike id hid
  rw [ha] at h
  generalize r'.get? id = y at h
  cases h with
  | some h => exact ⟨_, rfl, h⟩

theorem contains {id : String} (hid : id ∈ ids) : r'.contains id = r.contains id := by
  have h := agree.alike id hid
  unfold Entries.contains
  generalize r.get? id = x, r'.get? id = y at h
  cases h <;> rfl

/-- Where no hidden node is and none is in a branch of what is there, nothing is hidden. -/
theorem unhidden (keyed : ∀ id node, r.get? id = some node → node.id = id) {declared : Set String}
    (sub : declared ⊆ ids)
    (uses : ∀ id ∈ ids, ∀ node, r.get? id = some node → ∀ x ∈ node.resourceIds, x ∈ declared)
    (off : ∀ id ∈ declared, ∀ name ∈ hidden, ¬ Relation.ReflTransGen r.Nests id name) :
    Agree [] {id | id ∈ ids ∧ ∀ name ∈ hidden, ¬ Relation.ReflTransGen r.Nests id name} r r' where
  alike := by
    rintro id ⟨hid, hoff⟩
    have held := agree.alike id hid
    generalize hx : r.get? id = x, r'.get? id = y at held
    cases held with
    | none => exact .none
    | some held =>
      cases held with
      | same => exact .some (.same _)
      | hidden node flavor mem beside =>
        obtain rfl := keyed id _ hx
        exact absurd .refl (hoff node.id mem)
  members := by
    rintro id ⟨hid, hoff⟩ node hn m hm
    exact ⟨agree.members id hid node hn m hm, fun name hname h =>
      hoff name hname (.head ⟨node, hn, hm⟩ h)⟩
  resources := by
    rintro id ⟨hid, -⟩ node hn x hx
    have hx := uses id hid node hn x hx
    exact ⟨sub hx, off x hx⟩

variable {rank rank' : String → Nat} (ranked : r.RankedBy rank) (ranked' : r'.RankedBy rank')

include ranked ranked'

theorem emit (made : ∀ id node, r.get? id = some node → node.WellMade) (backflow : Bool)
    {id : String} (hid : id ∈ ids) {a b : Node} (ha : r.get? id = some a) (hb : r'.get? id = some b) :
    Corresponds (SameBut hidden) (Registry.emit r backflow a) (Registry.emit r' backflow b) := by
  refine ranked.induct (motive := fun id a => id ∈ ids → ∀ b, r'.get? id = some b →
    Corresponds (SameBut hidden) (Registry.emit r backflow a) (Registry.emit r' backflow b)) ?_
    id a ha hid b hb
  intro id a ha inside hid b hb
  rw [ranked.emit_eq, ranked'.emit_eq]
  cases agree.alike_of_get? hid ha hb with
  | same =>
    split
    · exact .ok rfl
    · next hshown =>
      have hbuilt : a.isFailed = false := by
        simp only [Bool.or_eq_true, not_or, Bool.not_eq_true] at hshown
        exact hshown.2
      refine (args_corresponds backflow (made id a ha) hbuilt ?_ ?_).map fun _ _ h => h
      · intro x hx
        rcases List.mem_append.mp hx with hx | hx
        · exact agree.alike x (agree.members id hid a ha x hx)
        · exact agree.alike x (agree.resources id hid a ha x hx)
      · intro m hm c d hc hd
        obtain ⟨found, hfound, -, ih⟩ := inside m hm
        obtain rfl : found = c := Option.some.inj (hfound.symm.trans hc)
        exact ih (agree.members id hid a ha m hm) d hd
  | hidden node flavor mem beside =>
    exact .ok (sameBut_frame_hidden backflow node flavor mem beside _ _)

theorem roots {id : String} (hid : id ∈ ids) {a b : Node} (ha : r.get? id = some a)
    (hb : r'.get? id = some b) : Registry.roots r a = Registry.roots r' b := by
  refine ranked.induct (motive := fun id a => id ∈ ids → ∀ b, r'.get? id = some b →
    Registry.roots r a = Registry.roots r' b) ?_ id a ha hid b hb
  intro id a ha inside hid b hb
  have alike := agree.alike_of_get? hid ha hb
  rw [ranked.roots_eq, ranked'.roots_eq, alike.members, alike.resourceIds, alike.id]
  congr 1
  refine mapM_congr fun m hm => ?_
  rw [← alike.members] at hm
  obtain ⟨child, hchild, -, ih⟩ := inside m hm
  have hmid := agree.members id hid a ha m hm
  obtain ⟨other, hother, -⟩ := agree.exists_get? hmid hchild
  rw [hchild, hother]
  exact ih hmid other hother

end Agree

section Collecting

variable {r : Registry} {backflow : Bool} {id : String} {c : Collected}

theorem collect_of_visited {n : Nat} {requestedBy : String} (h : c.visited.contains id = true) :
    collect r backflow n id requestedBy c = .ok c := by
  unfold collect
  rw [if_pos h]
  rfl

theorem collect_of_missing {n : Nat} {requestedBy : String} (h : c.visited.contains id = false)
    (hn : r.get? id = none) :
    collect r backflow n id requestedBy c = .error (.resourceNotFound id requestedBy) := by
  unfold collect
  simp only [h, hn, Bool.false_eq_true, if_false]
  rfl

theorem collect_succ (n : Nat) (requestedBy : String) (h : c.visited.contains id = false)
    {resource : Node} (hn : r.get? id = some resource) :
    collect r backflow (n + 1) id requestedBy c = (do
      let dependencies ← roots r resource
      let d ← dependencies.foldlM (fun c d => collect r backflow n d id c)
        { c with visited := id :: c.visited }
      let fields ← emit r backflow resource
      return { d with resolved := d.resolved ++ [(id, fields)] }) := by
  conv => lhs; unfold collect
  simp only [h, hn, Bool.false_eq_true, if_false]

end Collecting

/-- The same resources met, and the same emitted but for the arguments of hidden sub-graphs. -/
structure SameCollected (hidden : List String) (c c' : Collected) : Prop where
  visited : c.visited = c'.visited
  resolved : List.Forall₂ (fun e e' => e.1 = e'.1 ∧ SameBut hidden e.2 e'.2) c.resolved c'.resolved

namespace Agree

variable {hidden : List String} {ids : Set String} {r r' : Registry} (agree : Agree hidden ids r r')
  {rank rank' : String → Nat} (ranked : r.RankedBy rank) (ranked' : r'.RankedBy rank')
  (made : ∀ id node, r.get? id = some node → node.WellMade)

include agree

theorem roots_mem {declared : Set String}
    (uses : ∀ id ∈ ids, ∀ node, r.get? id = some node → ∀ x ∈ node.resourceIds, x ∈ declared)
    {id : String} (hid : id ∈ ids) {a : Node} (ha : r.get? id = some a) {found : List String}
    (h : Registry.roots r a = .ok found) : ∀ x ∈ found, x ∈ declared :=
  rootsWithin_forall (fun node => ∃ id ∈ ids, r.get? id = some node)
    (fun node ⟨id, hid, hn⟩ m hm _ hchild => ⟨m, agree.members id hid node hn m hm, hchild⟩)
    (fun node ⟨id, hid, hn⟩ => uses id hid node hn) ⟨id, hid, ha⟩ h

include ranked ranked' made

/-- Collecting a resource gives the same, whatever bounds leave room for all that has not been
met. -/
theorem collect (backflow : Bool) {n n' : Nat} {id requestedBy : String} (hid : id ∈ ids)
    {c c' : Collected} (same : SameCollected hidden c c') (enough : r.unvisited c ≤ n)
    (enough' : r'.unvisited c' ≤ n') :
    Corresponds (fun d d' => SameCollected hidden d d' ∧ c.visited ⊆ d.visited)
      (Registry.collect r backflow n id requestedBy c)
      (Registry.collect r' backflow n' id requestedBy c') := by
  induction n using Nat.strong_induction_on generalizing n' id requestedBy c c' with
  | _ n ih =>
    rcases hvisited : c.visited.contains id with _ | _
    · have hvisited' : c'.visited.contains id = false := same.visited ▸ hvisited
      rcases ha : r.get? id with _ | a
      · have hb : r'.get? id = none := by
          have hcontains := agree.contains hid
          simpa [Entries.contains, ha] using hcontains
        rw [collect_of_missing hvisited ha, collect_of_missing hvisited' hb]
        exact .error _
      · obtain ⟨b, hb, -⟩ := agree.exists_get? hid ha
        have hlt := unvisited_visit (Entries.contains_of_get? ha) hvisited
        have hlt' := unvisited_visit (Entries.contains_of_get? hb) hvisited'
        obtain ⟨m, rfl⟩ : ∃ m, n = m + 1 := ⟨n - 1, by omega⟩
        obtain ⟨m', rfl⟩ : ∃ m', n' = m' + 1 := ⟨n' - 1, by omega⟩
        rw [collect_succ m requestedBy hvisited ha, collect_succ m' requestedBy hvisited' hb,
          agree.roots ranked ranked' hid ha hb]
        have hroots : ∀ found, Registry.roots r' b = .ok found → ∀ x ∈ found, x ∈ ids :=
          fun found h => agree.roots_mem agree.resources hid ha ((agree.roots ranked ranked' hid ha hb).trans h)
        rcases hfound : Registry.roots r' b with e | dependencies
        · exact .error e
        -- along the dependencies nothing that has been met is forgotten
        have hall := Corresponds.foldlM
          (f := fun c d => Registry.collect r backflow m d id c)
          (g := fun c d => Registry.collect r' backflow m' d id c)
          (R := fun d d' => SameCollected hidden d d' ∧ id :: c.visited ⊆ d.visited)
          (fun x (hx : x ∈ dependencies) d d' hd => ?_) (a := { c with visited := id :: c.visited })
          (b := { c' with visited := id :: c'.visited })
          ⟨⟨congrArg (List.cons id) same.visited, same.resolved⟩, fun _ h => h⟩
        · refine hall.bind fun d d' hd => ?_
          refine (agree.emit ranked ranked' made backflow hid ha hb).bind fun fields fields' hf => ?_
          refine .ok ⟨⟨hd.1.visited, ?_⟩, fun x hx => hd.2 (List.mem_cons_of_mem _ hx)⟩
          exact List.rel_append hd.1.resolved (.cons ⟨rfl, hf⟩ .nil)
        · have hle := r.unvisited_le_of_subset (c := { c with visited := id :: c.visited }) hd.2
          have hvisited : id :: c'.visited ⊆ d'.visited := by
            rw [← hd.1.visited, ← same.visited]
            exact hd.2
          have hle' := r'.unvisited_le_of_subset (c := { c' with visited := id :: c'.visited }) hvisited
          refine (ih m (by omega) (hroots dependencies hfound x hx) hd.1 (by omega) (by omega)).mono ?_
          exact fun e e' he => ⟨he.1, fun y hy => he.2 (hd.2 hy)⟩
    · rw [collect_of_visited hvisited, collect_of_visited (same.visited ▸ hvisited)]
      exact .ok ⟨same, fun _ h => h⟩

end Agree

/-- All resources that a node depends on, where the node is looked up among some ids and what it
names among others. -/
theorem resourcesOf_corresponds {hidden hidden' : List String} {ids declared : Set String}
    {r r' : Registry} (agree : Agree hidden ids r r') (agree' : Agree hidden' declared r r')
    (uses : ∀ id ∈ ids, ∀ node, r.get? id = some node → ∀ x ∈ node.resourceIds, x ∈ declared)
    {rank rank' : String → Nat} (ranked : r.RankedBy rank) (ranked' : r'.RankedBy rank')
    (made : ∀ id node, r.get? id = some node → node.WellMade) (backflow : Bool) {id : String}
    (hid : id ∈ ids) {a b : Node} (ha : r.get? id = some a) (hb : r'.get? id = some b) :
    Corresponds (List.Forall₂ fun e e' => e.1 = e'.1 ∧ SameBut hidden' e.2 e'.2)
      (resourcesOf r backflow a) (resourcesOf r' backflow b) := by
  unfold resourcesOf
  rw [← (agree.alike_of_get? hid ha hb).id, ← agree.roots ranked ranked' hid ha hb]
  rcases hfound : roots r a with e | found
  · exact .error e
  have hdeclared := agree.roots_mem uses hid ha hfound
  have hall := Corresponds.foldlM
    (f := fun c x => collect r backflow r.length x a.id c)
    (g := fun c x => collect r' backflow r'.length x a.id c) (R := SameCollected hidden')
    (fun x (hx : x ∈ found) c c' h => (agree'.collect ranked ranked' made backflow (hdeclared x hx) h
      (r.unvisited_le c) (r'.unvisited_le c')).mono fun _ _ h => h.1) (a := {}) (b := {})
    ⟨rfl, .nil⟩
  exact hall.bind fun c c' h => .ok h.resolved

end Registry

end WorkflowCompiler
