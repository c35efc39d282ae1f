import WorkflowCompiler.Proofs.Entries
import WorkflowCompiler.Proofs.Steps

/-!
# What is built

Every built node keeps the identity and the kind of the node it is built from, and holds the body
of that kind. A fork starts with the cases that its ports declare and with empty branches.
-/
namespace WorkflowCompiler

/-- The kind whose nodes hold such a body; a stand-in belongs to no kind. -/
def NodeBody.kind? : NodeBody → Option NodeKind
  | .empty => some .marker
  | .failed _ => none
  | .code _ _ => some .code
  | .formatter _ _ => some .formatter
  | .joinFormatter _ _ _ => some .joinFormatter
  | .ifs _ _ _ => some .ifs
  | .switch _ _ _ => some .switch
  | .intention _ _ _ => some .intention
  | .subgraph _ _ => some .subgraph
  | .llm _ => some .llm
  | .localModel _ => some .localModel
  | .embedding _ => some .embedding
  | .reranker _ => some .reranker
  | .document _ => some .document
  | .retriever _ => some .retriever
  | .sqlManager _ _ => some .sqlManager
  | .sqlCall _ _ _ _ => some .sqlCall
  | .httpTool _ => some .httpTool
  | .servedTool _ _ _ => some .servedTool
  | .toolsForLlm _ => some .toolsForLlm
  | .functionCall _ _ _ => some .functionCall
  | .llmAssisted _ _ => some .llmAssisted
  | .service _ => some .service

namespace Node

/-- The cases that the ports of a fork of a kind declare. -/
def declaredCases (node : Node) : NodeKind → List ForkCase
  | .ifs => truthCases node.outputPorts
  | .switch => Branching.withDefault <| node.outputPorts.map fun port =>
      ⟨port.id, CaseKey.coerce (CaseKey.ofPort port) node.conversion⟩
  | .intention => Branching.withDefault <| node.outputPorts.map fun port =>
      ⟨port.id, CaseKey.ofPort port⟩
  | _ => []

/-- `made` is `node` with a body of the given kind and the resources that this body names. -/
structure Makes (node : Node) (kind : NodeKind) (made : Node) : Prop where
  id : made.id = node.id
  declared : made.kind = node.kind
  lowerKind : made.lowerKind = node.lowerKind
  body : made.body.kind? = some kind
  branching : ∀ b, made.body.branching? = some b → b = .ofCases (node.declaredCases kind)
  doc : ∀ r, made.body = .retriever r → r.doc ∈ made.resourceIds

theorem resolveApiKey_keeps {c : Collaborators} {node made : Node} {model : String} {key : ApiKey}
    (h : resolveApiKey c node model = .ok (key, made)) :
    made.id = node.id ∧ made.kind = node.kind ∧ made.lowerKind = node.lowerKind := by
  unfold resolveApiKey at h
  split at h
  · obtain ⟨-, rfl⟩ := by simpa using h
    exact ⟨rfl, rfl, rfl⟩
  · obtain ⟨models, -, h⟩ := bind_eq_ok.mp h
    dsimp only at h
    split at h
    rotate_left
    split at h
    -- wherever the id of the key comes from, what follows is the same
    all_goals
      obtain ⟨keyId, -, h⟩ := bind_eq_ok.mp h
      split at h
      · simp at h
      · obtain ⟨found, -, h⟩ := bind_eq_ok.mp h
        split at h
        · split at h
          · simp at h
          · obtain ⟨-, rfl⟩ := by simpa using h
            exact ⟨rfl, rfl, rfl⟩
        · simp at h

theorem resolveLocal_keeps {c : Collaborators} {node made : Node} {source : ModelSource}
    (h : resolveLocal c node = .ok (source, made)) :
    made.id = node.id ∧ made.kind = node.kind ∧ made.lowerKind = node.lowerKind := by
  unfold resolveLocal at h
  dsimp only at h
  split at h
  all_goals
    obtain ⟨modelId, -, h⟩ := bind_eq_ok.mp h
    obtain ⟨models, -, h⟩ := bind_eq_ok.mp h
    obtain ⟨path, -, h⟩ := bind_eq_ok.mp h
    obtain ⟨-, rfl⟩ := by simpa using h
    exact ⟨rfl, rfl, rfl⟩

theorem resolveModel_keeps {c : Collaborators} {node made : Node} {source : ModelSource}
    (h : resolveModel c node = .ok (source, made)) :
    made.id = node.id ∧ made.kind = node.kind ∧ made.lowerKind = node.lowerKind := by
  unfold resolveModel at h
  split at h
  · obtain ⟨⟨key, kept⟩, hk, h⟩ := bind_eq_ok.mp h
    obtain ⟨-, rfl⟩ := by simpa using h
    exact resolveApiKey_keeps hk
  · exact resolveLocal_keeps h

/-- A node with the identity of `node` and a body that is neither a fork nor a retriever. -/
theorem makes_withBody {node base : Node} {kind : NodeKind} {body : NodeBody}
    (same : base.id = node.id ∧ base.kind = node.kind ∧ base.lowerKind = node.lowerKind)
    (hk : body.kind? = some kind) (hb : body.branching? = none) (hr : kind ≠ .retriever) :
    Makes node kind (base.withBody body) where
  id := same.1
  declared := same.2.1
  lowerKind := same.2.2
  body := hk
  branching := by simp [withBody, hb]
  doc := by
    intro r h
    have hbody : body = .retriever r := h
    subst hbody
    exact absurd (Option.some.inj hk).symm hr

theorem mem_resourceIds_useResources (node : Node) (key id : String) :
    id ∈ (node.useResources key (.one id)).resourceIds := by
  have h : (key, ResourceRef.one id) ∈ node.usedResources.insert key (.one id) :=
    Entries.mem_of_get? (Entries.get?_insert_self _ _ _)
  exact List.mem_flatMap.mpr ⟨_, List.mem_map_of_mem (f := Prod.snd) h, by simp [ResourceRef.ids]⟩

/-- Building by kind gives a node of that kind. -/
theorem makes_of_buildPlain {c : Collaborators} {node made : Node} {kind : NodeKind}
    (h : buildPlain c node kind = .ok made) : Makes node kind made := by
  have same : node.id = node.id ∧ node.kind = node.kind ∧ node.lowerKind = node.lowerKind :=
    ⟨rfl, rfl, rfl⟩
  cases kind with
  | marker | formatter | joinFormatter | service =>
    obtain rfl := Except.ok.inj h
    exact makes_withBody same rfl rfl (by decide)
  | ifs | switch =>
    obtain rfl := Except.ok.inj h
    exact ⟨rfl, rfl, rfl, rfl, fun b hb => (Option.some.inj hb).symm, fun r hr => nomatch hr⟩
  | intention =>
    obtain ⟨baseModel, -, h⟩ := bind_eq_ok.mp h
    obtain rfl := pure_eq_ok.mp h
    exact ⟨rfl, rfl, rfl, rfl, fun b hb => (Option.some.inj hb).symm, fun r hr => nomatch hr⟩
  | retriever =>
    obtain ⟨doc, -, h⟩ := bind_eq_ok.mp h
    obtain rfl := pure_eq_ok.mp h
    refine ⟨rfl, rfl, rfl, rfl, (fun b hb => nomatch hb), fun r hr => ?_⟩
    obtain rfl := NodeBody.retriever.inj hr
    exact mem_resourceIds_useResources node "doc" doc
  | code | llmAssisted =>
    obtain ⟨text, -, h⟩ := bind_eq_ok.mp h
    obtain rfl := pure_eq_ok.mp h
    exact makes_withBody same rfl rfl (by decide)
  | toolsForLlm =>
    obtain rfl := Except.ok.inj h
    exact makes_withBody same rfl rfl (by decide)
  | functionCall =>
    obtain ⟨llm, -, h⟩ := bind_eq_ok.mp h
    obtain rfl := pure_eq_ok.mp h
    exact makes_withBody same rfl rfl (by decide)
  | sqlCall =>
    obtain ⟨llm, -, h⟩ := bind_eq_ok.mp h
    obtain ⟨manager, -, h⟩ := bind_eq_ok.mp h
    obtain rfl := pure_eq_ok.mp h
    exact makes_withBody same rfl rfl (by decide)
  | servedTool =>
    obtain ⟨toolId, -, h⟩ := bind_eq_ok.mp h
    obtain ⟨catalog, -, h⟩ := bind_eq_ok.mp h
    obtain ⟨tool, -, h⟩ := bind_eq_ok.mp h
    obtain rfl := pure_eq_ok.mp h
    exact makes_withBody same rfl rfl (by decide)
  | localModel =>
    obtain ⟨⟨source, kept⟩, hk, h⟩ := bind_eq_ok.mp h
    obtain rfl := pure_eq_ok.mp h
    exact makes_withBody (resolveLocal_keeps hk) rfl rfl (by decide)
  | embedding =>
    obtain ⟨⟨source, kept⟩, hk, h⟩ := bind_eq_ok.mp h
    obtain rfl := pure_eq_ok.mp h
    exact makes_withBody (resolveModel_keeps hk) rfl rfl (by decide)
  | llm =>
    obtain ⟨history, -, h⟩ := bind_eq_ok.mp h
    obtain ⟨⟨source, kept⟩, hk, h⟩ := bind_eq_ok.mp h
    obtain rfl := pure_eq_ok.mp h
    have same := resolveModel_keeps hk
    exact makes_withBody ⟨same.1, same.2.1, same.2.2⟩ rfl rfl (by decide)
  | reranker =>
    simp only [buildPlain, buildReranker] at h
    split at h
    · obtain ⟨⟨source, kept⟩, hk, h⟩ := bind_eq_ok.mp h
      obtain ⟨-, -, h⟩ := bind_eq_ok.mp h
      obtain rfl := pure_eq_ok.mp h
      exact makes_withBody (resolveModel_keeps hk) rfl rfl (by decide)
    · obtain ⟨-, -, h⟩ := bind_eq_ok.mp h
      obtain rfl := pure_eq_ok.mp h
      exact makes_withBody same rfl rfl (by decide)
  | document =>
    obtain ⟨paths, -, h⟩ := bind_eq_ok.mp h
    dsimp only at h
    split at h
    · simp [bind_eq_ok] at h
    · obtain ⟨groups, -, h⟩ := bind_eq_ok.mp h
      obtain rfl := pure_eq_ok.mp h
      refine makes_withBody ?_ rfl rfl (by decide)
      cases node.payloadString "embed" <;> exact same
  | sqlManager =>
    simp only [buildPlain, buildSqlManager] at h
    split at h
    · obtain ⟨databases, -, h⟩ := bind_eq_ok.mp h
      obtain ⟨connection, -, h⟩ := bind_eq_ok.mp h
      obtain rfl := pure_eq_ok.mp h
      exact makes_withBody same rfl rfl (by decide)
    · obtain ⟨connection, -, h⟩ := bind_eq_ok.mp h
      obtain rfl := pure_eq_ok.mp h
      exact makes_withBody same rfl rfl (by decide)
  | httpTool =>
    simp only [buildPlain, buildHttpTool] at h
    split at h
    all_goals
      obtain ⟨http, -, h⟩ := bind_eq_ok.mp h
      obtain rfl := pure_eq_ok.mp h
      exact makes_withBody same rfl rfl (by decide)
  | subgraph => cases h

end Node

/-- The cases that the ports of a node declare; only forks declare any. -/
def EditorNode.declaredCases (raw : EditorNode) : List ForkCase :=
  match NodeKind.ofName? (Text.lower raw.kind) with
  | some kind => (Node.ofEditor raw).declaredCases kind
  | none => []

/-- The cases of a fork on a truth value are under the two truth values. -/
theorem key_of_ifs {raw : EditorNode} {c : ForkCase} (hc : c ∈ raw.declaredCases)
    (kind : NodeKind.ofName? (Text.lower raw.kind) = some .ifs) : c.key = "true" ∨ c.key = "false" := by
  unfold EditorNode.declaredCases at hc
  rw [kind] at hc
  have hc : c ∈ Node.truthCases raw.outputPorts := hc
  unfold Node.truthCases at hc
  split at hc
  all_goals
    obtain rfl | hc := List.mem_cons.mp hc
    · exact .inl rfl
    · rw [List.mem_singleton.mp hc]
      exact .inr rfl

namespace Node

/-- `node` has been built from `raw`, or stands in for it, and nothing has happened to it since. -/
structure BuiltFrom (raw : EditorNode) (node : Node) : Prop where
  id : node.id = raw.id
  declared : node.kind = raw.kind
  lowerKind : node.lowerKind = Text.lower raw.kind
  body : node.isFailed = true ∨ node.body.kind? = NodeKind.ofName? node.lowerKind
  branching : ∀ b, node.body.branching? = some b → b = .ofCases raw.declaredCases
  doc : ∀ r, node.body = .retriever r → r.doc ∈ node.resourceIds

theorem builtFrom_of_makes {raw : EditorNode} {node : Node} {kind : NodeKind}
    (h : Makes (ofEditor raw) kind node)
    (hk : NodeKind.ofName? (ofEditor raw).lowerKind = some kind) : BuiltFrom raw node where
  id := h.id
  declared := h.declared
  lowerKind := h.lowerKind
  body := .inr (by rw [h.body, h.lowerKind, hk])
  branching := by
    intro b hb
    have hc : raw.declaredCases = (ofEditor raw).declaredCases kind := by
      unfold EditorNode.declaredCases
      rw [show NodeKind.ofName? (Text.lower raw.kind) = some kind from hk]
    rw [hc]
    exact h.branching b hb
  doc := h.doc

theorem builtFrom_placeholder (raw : EditorNode) (reason : String) :
    BuiltFrom raw (placeholder raw reason) where
  id := rfl
  declared := rfl
  lowerKind := rfl
  body := .inl rfl
  branching := by simp [placeholder, NodeBody.branching?]
  doc := by simp [placeholder]

theorem makes_of_buildNested (nested : NestedCompiler) (node : Node) (s : Session) :
    Step.Ensures (buildNested nested node) s (fun made _ => Makes node .subgraph made)
      fun _ _ => True := by
  refine Step.ensures_bind_of_forall fun flavor t => ?_
  refine Step.ensures_bind_of_forall fun graph t => ?_
  refine Step.ensures_bind_of_forall fun compiled t => ?_
  refine Step.ensures_pure (makes_withBody ?_ rfl rfl (by decide))
  split <;> exact ⟨rfl, rfl, rfl⟩

/-- Whatever compiles nested graphs, what is built for a node of the editor holds the body of its
kind. -/
theorem makes_of_build (nested : NestedCompiler) (raw : EditorNode) (s : Session) :
    Step.Ensures (build nested raw) s
      (fun node _ => ∃ kind, NodeKind.ofName? (ofEditor raw).lowerKind = some kind ∧
        Makes (ofEditor raw) kind node) fun _ _ => True := by
  unfold build
  dsimp only
  split
  · exact Step.ensures_throw trivial
  · next hk =>
    exact (makes_of_buildNested nested (ofEditor raw) s).mono (fun _ _ h => ⟨_, hk, h⟩) fun _ _ h => h
  · next kind _ hk =>
    exact Step.ensures_ofSession (fun _ h => ⟨_, hk, makes_of_buildPlain h⟩) fun _ _ => trivial

theorem builtFrom_of_build (nested : NestedCompiler) (raw : EditorNode) (s : Session) :
    Step.Ensures (build nested raw) s (fun node _ => BuiltFrom raw node) fun _ _ => True :=
  (makes_of_build nested raw s).mono (fun _ _ ⟨_, hk, h⟩ => builtFrom_of_makes h hk) fun _ _ h => h

end Node

end WorkflowCompiler
