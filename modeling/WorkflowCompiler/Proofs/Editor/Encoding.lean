import WorkflowCompiler.Editor.Codec
import WorkflowCompiler.Proofs.Json.Decoding

/-!
# Graphs that are read back

A legible graph is one that can be read: no key occurs twice in a node or a connection, and nothing
that is kept beside the fields bears the name of a field. Everything that is read is legible, and a
legible graph is read back as it was written.
-/
namespace WorkflowCompiler

open Decode

namespace EditorNode

/-- Whether the node is one that can be read: no key occurs twice, and no field is kept beside the
fields. -/
structure Legible (node : EditorNode) : Prop where
  data : (Entries.keys node.data).Nodup
  extra : (Entries.keys node.extra).Nodup
  beside : ∀ key ∈ Entries.keys node.extra, key ∉ ["id", "data"]

theorem legible_of_decode {α : Type} [Readable α] {x : α} {node : EditorNode}
    (h : decode x = .ok node) : node.Legible := by
  refine openRecord_keeps (P := Legible) ?_ ?_ ?_ h
  · intro field hfield x s t hs run
    simp only [List.mem_cons, List.not_mem_nil, or_false] at hfield
    rcases hfield with rfl | rfl
    · obtain ⟨_, -, rfl⟩ := map_eq_ok.mp run
      exact ⟨hs.data, hs.extra, hs.beside⟩
    · obtain ⟨data, hdata, rfl⟩ := map_eq_ok.mp run
      exact ⟨nodup_of_map hdata, hs.extra, hs.beside⟩
  · intro key value s hkey hs
    refine ⟨hs.data, Entries.nodup_keys_insert hs.extra key value, fun k hk => ?_⟩
    obtain hk | rfl := Entries.mem_keys_of_insert hk
    · exact hs.beside k hk
    · simpa [required, defaulted] using hkey
  · exact ⟨List.nodup_nil, List.nodup_nil, by simp [Entries.keys]⟩

theorem decode_encode {node : EditorNode} (h : node.Legible) : decode node.encode = .ok node := by
  have data : map json (Json.object node.data) = .ok node.data := by
    have items : node.data.mapM (fun field => return (field.1, ← json field.2)) =
        (.ok node.data : Except DecodeError JsonObject) :=
      mapM_eq_ok.mpr (List.forall₂_same.mpr fun _ _ => rfl)
    show (do
      let pairs ← node.data.mapM fun field => return (field.1, ← json field.2)
      return Entries.ofPairs pairs : Except DecodeError JsonObject) = _
    rw [items]
    exact congrArg Except.ok (Entries.ofPairs_of_nodup h.data)
  have extra : ∀ (done : JsonObject) (rest : JsonObject),
      rest.foldl (fun n e => { n with extra := n.extra.insert e.1 e.2 })
        ({ id := node.id, data := node.data, extra := done } : EditorNode) =
      { id := node.id, data := node.data, extra := Entries.insertAll done rest } := by
    intro done rest
    induction rest generalizing done with
    | nil => rfl
    | cons e rest ih => exact ih _
  unfold decode openRecord encode
  show storeFields _ _ false [] _ _ = _
  rw [storeFields_cons (t := { id := node.id }) rfl rfl rfl,
    storeFields_cons (t := { id := node.id, data := node.data }) rfl rfl ?_, storeFields_others, extra]
  · rw [show Entries.insertAll [] node.extra = node.extra from Entries.ofPairs_of_nodup h.extra]
  · intro key hkey
    simpa [required, defaulted] using h.beside key hkey
  · rfl
  · show Except.map _ (map json (Json.object node.data)) = _
    rw [data]
    rfl

end EditorNode

namespace EditorEdge

/-- The names of the fields of a connection. -/
def fieldNames : List String :=
  ["source", "target", "sourceHandle", "source_handle", "targetHandle", "target_handle", "label",
    "formatter"]

/-- Whether the connection is one that can be read: no key occurs twice, and no field is kept beside
the fields. -/
structure Legible (edge : EditorEdge) : Prop where
  extra : (Entries.keys edge.extra).Nodup
  beside : ∀ key ∈ Entries.keys edge.extra, key ∉ fieldNames

theorem legible_of_decode {α : Type} [Readable α] {x : α} {edge : EditorEdge}
    (h : decode x = .ok edge) : edge.Legible := by
  refine openRecord_keeps (P := Legible) ?_ ?_ ?_ h
  · intro field hfield x s t hs run
    simp only [List.mem_cons, List.not_mem_nil, or_false] at hfield
    rcases hfield with rfl | rfl | rfl | rfl | rfl | rfl <;>
      obtain ⟨_, -, rfl⟩ := map_eq_ok.mp run <;> exact ⟨hs.extra, hs.beside⟩
  · intro key value s hkey hs
    refine ⟨Entries.nodup_keys_insert hs.extra key value, fun k hk => ?_⟩
    obtain hk | rfl := Entries.mem_keys_of_insert hk
    · exact hs.beside k hk
    · simpa [fieldNames, required, defaulted, aliased, and_assoc] using hkey
  · exact ⟨List.nodup_nil, by simp [Entries.keys]⟩

/-- A field that is written only when it is set is read only then. -/
theorem storeFields_encodeSet {σ : Type} {fields : List (Field Json σ)} {seen : List String} {s : σ}
    {other : String → Json → σ → Except DecodeError σ} {key : String} {value : Option String}
    {rest : JsonObject} {field : Field Json σ} (set : Option String → σ → σ)
    (found : fields.find? (fun field => field.names.contains key) = some field)
    (new : seen.contains field.name = false)
    (stored : ∀ x, field.store x s = (optional string x).map fun v => set v s)
    (unset : set none s = s) :
    storeFields fields other false seen s (encodeSet key value ++ rest) =
      storeFields fields other false ((value.map fun _ => field.name).toList ++ seen) (set value s)
        rest := by
  cases value with
  | none =>
    rw [unset]
    rfl
  | some text => exact storeFields_cons found new (stored (.string text))

theorem decode_encode {edge : EditorEdge} (h : edge.Legible) : decode edge.encode = .ok edge := by
  obtain ⟨source, target, sourceHandle, targetHandle, label, formatter, extra⟩ := edge
  have kept : ∀ (e : EditorEdge) (rest : JsonObject),
      rest.foldl (fun e entry => { e with extra := e.extra.insert entry.1 entry.2 }) e =
        { e with extra := Entries.insertAll e.extra rest } := by
    intro e rest
    induction rest generalizing e with
    | nil => rfl
    | cons entry rest ih => exact ih _
  unfold decode openRecord encode
  rw [List.append_assoc, List.append_assoc, List.append_assoc, List.append_assoc]
  show storeFields _ _ false [] _ (("source", .string source) :: ("target", .string target) ::
    (encodeSet "sourceHandle" sourceHandle ++ (encodeSet "targetHandle" targetHandle ++
      (encodeSet "label" label ++ (encodeSet "formatter" formatter ++ extra))))) = _
  rw [storeFields_cons (t := { source, target := "" }) rfl rfl rfl,
    storeFields_cons (t := { source, target }) rfl rfl rfl,
    storeFields_encodeSet (fun v e => { e with sourceHandle := v }) rfl rfl (fun _ => rfl) rfl,
    storeFields_encodeSet (fun v e => { e with targetHandle := v }) rfl
      (by cases sourceHandle <;> rfl) (fun _ => rfl) rfl,
    storeFields_encodeSet (fun v e => { e with label := v }) rfl
      (by cases sourceHandle <;> cases targetHandle <;> rfl) (fun _ => rfl) rfl,
    storeFields_encodeSet (fun v e => { e with formatter := v }) rfl
      (by cases sourceHandle <;> cases targetHandle <;> cases label <;> rfl) (fun _ => rfl) rfl,
    storeFields_others ?_
      (by cases sourceHandle <;> cases targetHandle <;> cases label <;> cases formatter <;> rfl),
    kept]
  · exact congrArg (fun more => Except.ok (EditorEdge.mk source target sourceHandle targetHandle
      label formatter more)) (Entries.ofPairs_of_nodup h.extra)
  · intro key hkey
    simpa [fieldNames, required, defaulted, aliased, and_assoc] using h.beside key hkey

end EditorEdge

namespace EditorGraph

/-- Whether the graph is one that can be read. -/
structure Legible (graph : EditorGraph) : Prop where
  nodes : ∀ node ∈ graph.nodes, node.Legible
  edges : ∀ edge ∈ graph.edges, edge.Legible
  resources : ∀ node ∈ graph.resources, node.Legible

theorem legible_of_decode {α : Type} [Readable α] {x : α} {graph : EditorGraph}
    (h : decode x = .ok graph) : graph.Legible := by
  refine record_keeps (P := Legible) ?_ ⟨by simp, by simp, by simp⟩ h
  intro field hfield x s t hs run
  simp only [List.mem_cons, List.not_mem_nil, or_false] at hfield
  rcases hfield with rfl | rfl | rfl <;> obtain ⟨items, hitems, rfl⟩ := map_eq_ok.mp run
  · refine ⟨fun node hnode => ?_, hs.edges, hs.resources⟩
    obtain ⟨_, h⟩ := list_eq_ok hitems node hnode
    exact EditorNode.legible_of_decode h
  · refine ⟨hs.nodes, fun edge hedge => ?_, hs.resources⟩
    obtain ⟨_, h⟩ := list_eq_ok hitems edge hedge
    exact EditorEdge.legible_of_decode h
  · refine ⟨hs.nodes, hs.edges, fun node hnode => ?_⟩
    obtain ⟨_, h⟩ := list_eq_ok hitems node hnode
    exact EditorNode.legible_of_decode h

/-- A legible graph is read as it was written. -/
theorem decode_encode {graph : EditorGraph} (h : graph.Legible) : decode graph.encode = .ok graph := by
  have nodes : ∀ nodes : List EditorNode, (∀ node ∈ nodes, node.Legible) →
      list EditorNode.decode (Json.array (nodes.map EditorNode.encode)) = .ok nodes := fun nodes h =>
    list_encoded fun node hnode => EditorNode.decode_encode (h node hnode)
  unfold decode record encode
  show storeFields _ _ false [] _ _ = _
  rw [storeFields_cons (t := { nodes := graph.nodes }) rfl rfl
      (congrArg (Except.map _) (nodes graph.nodes h.nodes)),
    storeFields_cons (t := { nodes := graph.nodes, edges := graph.edges }) rfl rfl
      (congrArg (Except.map _) (list_encoded fun edge hedge =>
        EditorEdge.decode_encode (h.edges edge hedge))),
    storeFields_cons (t := graph) rfl rfl
      (congrArg (Except.map _) (nodes graph.resources h.resources))]
  rfl

end EditorGraph

end WorkflowCompiler
