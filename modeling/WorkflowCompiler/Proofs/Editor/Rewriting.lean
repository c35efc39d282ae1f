import WorkflowCompiler.Proofs.Editor.Encoding

/-!
# Graphs that are read and written again

Every node and connection of a graph that is read is written again with all that was written of it:
fields under their first names, absent ones left out, and what is in none of the fields as it was.
-/
namespace WorkflowCompiler

open Decode

namespace Json

/-- The items of the list under a key, none if there is no list. -/
def listed (value : Json) (key : String) : List Json := ((value.field? key).bind array?).getD []

theorem Keyed.of_listed {value : Json} (keyed : value.Keyed) {key : String} {item : Json}
    (h : item ∈ value.listed key) : item.Keyed := by
  unfold listed at h
  cases keyed with
  | @object fields keys each =>
    cases given : Entries.get? fields key with
    | none => simp [field?, given] at h
    | some found =>
      cases each (key, found) (Entries.mem_of_get? given) with
      | array each => exact each item (by simpa [field?, given, array?] using h)
      | null | bool | number | string | object => simp [field?, given, array?] at h
  | null | bool | number | string | array => simp [field?] at h

end Json

namespace EditorNode

/-- How the object of a node is written again: with its identifier, its data, empty if there are none,
and all that was written beside them, in order. -/
inductive Rewritten : Json → Json → Prop
  | intro {input output : JsonObject} (id : output.get? "id" = input.get? "id")
      (data : output.get? "data" = some ((input.get? "data").getD (.object [])))
      (beside : output.beside ["id", "data"] = input.beside ["id", "data"]) :
      Rewritten (.object input) (.object output)

/-- A field of a node, as it is written. -/
def shown (name : String) (node : EditorNode) : Json :=
  if name = "id" then .string node.id else .object node.data

theorem rewritten_of_decode {x : Json} {node : EditorNode} (keyed : x.Keyed)
    (h : decode x = .ok node) : Rewritten x node.encode := by
  have legible := legible_of_decode h
  cases keyed with
  | null | bool | number | string | array => cases h
  | @object input keys each =>
    have fields := openRecord_shows shown h (by decide)
      (by simp [required, defaulted, Field.name]) ?_ (fun _ _ _ _ => rfl)
    have extra := storeFields_beside EditorNode.extra h ?_ (fun _ _ _ => rfl)
    · obtain ⟨id, given⟩ := fields _ (.head _)
      obtain ⟨data, -⟩ := fields _ (.tail _ (.head _))
      have extra : node.extra = input.beside ["id", "data"] :=
        extra.trans (Entries.ofPairs_of_nodup (Entries.nodup_keys_beside keys))
      obtain ⟨value, hvalue⟩ := Option.isSome_iff_exists.mp (given rfl)
      have hid : shown "id" node = value := by
        rw [hvalue] at id
        exact id
      refine .intro ?_ ?_ ?_
      · rw [← Entries.under_single "id" input]
        exact (congrArg some hid).trans hvalue.symm
      · rw [← Entries.under_single "data" input]
        exact congrArg some data
      · exact (Entries.beside_eq_self legible.beside).trans extra
    · intro f hf x s t run
      simp only [List.mem_cons, List.not_mem_nil, or_false] at hf
      rcases hf with rfl | rfl <;> obtain ⟨_, -, rfl⟩ := map_eq_ok.mp run <;> rfl
    · intro f hf key x s t hx run g hg
      simp only [List.mem_cons, List.not_mem_nil, or_false] at hf hg
      rcases hf with rfl | rfl <;> obtain ⟨value, read, rfl⟩ := map_eq_ok.mp run
      · obtain rfl := eq_of_string read
        rcases hg with rfl | rfl <;> rfl
      · obtain rfl := eq_of_keyed_map (each (key, x) hx) read
        rcases hg with rfl | rfl <;> rfl

end EditorNode

namespace EditorEdge

/-- The fields of a connection under all their names, that under which they are written first. -/
def spellings : List (List String) :=
  [["source"], ["target"], ["sourceHandle", "source_handle"], ["targetHandle", "target_handle"],
    ["label"], ["formatter"]]

/-- How the object of a connection is written again: what was written under one of the names of a
field under the first of them, unless it was null, and all that was written beside the fields, in
order. -/
inductive Rewritten : Json → Json → Prop
  | intro {input output : JsonObject}
      (fields : ∀ names ∈ spellings, output.get? (names.headD "") =
        (input.under names).filter fun value => !value.isNull)
      (beside : output.beside spellings.flatten = input.beside spellings.flatten) :
      Rewritten (.object input) (.object output)

/-- A field of a connection, as it is written, or null. -/
def shown (name : String) (edge : EditorEdge) : Json :=
  if name = "source" then .string edge.source
  else if name = "target" then .string edge.target
  else if name = "sourceHandle" then .ofString? edge.sourceHandle
  else if name = "targetHandle" then .ofString? edge.targetHandle
  else if name = "label" then .ofString? edge.label
  else .ofString? edge.formatter

theorem get?_encodeSet (key name : String) (value : Option String) :
    Entries.get? (encodeSet key value) name = if key = name then value.map .string else none := by
  cases value <;> simp [encodeSet, Entries.get?]

theorem beside_encodeSet {names : List String} {key : String} (h : key ∈ names)
    (value : Option String) : Entries.beside names (encodeSet key value) = [] := by
  cases value with
  | none => rfl
  | some text => exact Entries.beside_cons_of_mem h

/-- A connection that can be read is written as its fields, those that are set, and what is kept
beside them. -/
theorem exists_encoded {edge : EditorEdge} (legible : edge.Legible) :
    ∃ output : JsonObject, edge.encode = .object output ∧
      (∀ names ∈ spellings, output.get? (names.headD "") =
        (some (edge.shown (names.headD ""))).filter fun value => !value.isNull) ∧
      output.beside spellings.flatten = edge.extra := by
  have beside : ∀ key ∈ Entries.keys edge.extra, key ∉ spellings.flatten := legible.beside
  have absent : ∀ name, name ∈ spellings.flatten → edge.extra.get? name = none := fun name hname =>
    Entries.get?_of_not_mem fun mem => beside name mem hname
  have given (text : String) :
      ((some (.string text)).filter fun value => !Json.isNull value) = some (.string text) := rfl
  have set (text : Option String) :
      ((some (.ofString? text)).filter fun value => !Json.isNull value) = text.map .string := by
    cases text <;> rfl
  refine ⟨_, rfl, ?_, ?_⟩
  · intro names hnames
    simp only [spellings, List.mem_cons, List.not_mem_nil, or_false] at hnames
    rcases hnames with rfl | rfl | rfl | rfl | rfl | rfl <;>
      simp (disch := decide) [get?_encodeSet, Entries.get?, Entries.get?_append, shown, given, set,
        absent]
  · simp (disch := decide) only [Entries.beside_append, beside_encodeSet,
      Entries.beside_eq_self beside, List.append_nil]
    rfl

/-- What a connection shows is what was written under the names of its fields, and it keeps what was
written beside them. -/
theorem shows_of_decode {input : JsonObject} {edge : EditorEdge}
    (h : decode (Json.object input) = .ok edge) :
    (∀ names ∈ spellings, ((some (edge.shown (names.headD ""))).filter fun value => !value.isNull) =
      (input.under names).filter fun value => !value.isNull) ∧
    edge.extra = Entries.ofPairs (input.beside spellings.flatten) := by
  have fields := openRecord_shows shown h (by decide)
    (by simp [required, defaulted, aliased, Field.name]) ?_ (fun _ _ _ _ => rfl)
  refine ⟨fun names hnames => ?_, storeFields_beside EditorEdge.extra h ?_ fun _ _ _ => rfl⟩
  · have kept := given_of_shows fields (by simp [required, defaulted, aliased, shown, Field.name,
      Json.isNull, Json.ofString?])
    simp only [spellings, List.mem_cons, List.not_mem_nil, or_false] at hnames
    rcases hnames with rfl | rfl | rfl | rfl | rfl | rfl
    · exact kept _ (.head _)
    · exact kept _ (.tail _ (.head _))
    · exact kept _ (.tail _ (.tail _ (.head _)))
    · exact kept _ (.tail _ (.tail _ (.tail _ (.head _))))
    · exact kept _ (.tail _ (.tail _ (.tail _ (.tail _ (.head _)))))
    · exact kept _ (.tail _ (.tail _ (.tail _ (.tail _ (.tail _ (.head _))))))
  · intro f hf x s t run
    simp only [List.mem_cons, List.not_mem_nil, or_false] at hf
    rcases hf with rfl | rfl | rfl | rfl | rfl | rfl <;>
      obtain ⟨_, -, rfl⟩ := map_eq_ok.mp run <;> rfl
  · intro f hf key x s t hx run g hg
    simp only [List.mem_cons, List.not_mem_nil, or_false] at hf hg
    -- The first two fields are texts, the others may be null.
    rcases hf with rfl | rfl | hf
    · obtain ⟨_, read, rfl⟩ := map_eq_ok.mp run
      obtain rfl := eq_of_string read
      rcases hg with rfl | rfl | rfl | rfl | rfl | rfl <;> rfl
    · obtain ⟨_, read, rfl⟩ := map_eq_ok.mp run
      obtain rfl := eq_of_string read
      rcases hg with rfl | rfl | rfl | rfl | rfl | rfl <;> rfl
    · rcases hf with rfl | rfl | rfl | rfl <;>
        obtain ⟨_, read, rfl⟩ := map_eq_ok.mp run <;>
        obtain rfl := eq_of_optional_string read <;>
        rcases hg with rfl | rfl | rfl | rfl | rfl | rfl <;> rfl

theorem rewritten_of_decode {x : Json} {edge : EditorEdge} (keyed : x.Keyed)
    (h : decode x = .ok edge) : Rewritten x edge.encode := by
  have legible := legible_of_decode h
  cases keyed with
  | null | bool | number | string | array => cases h
  | @object input keys _ =>
    obtain ⟨shows, extra⟩ := shows_of_decode h
    obtain ⟨output, encoded, set, beside⟩ := exists_encoded legible
    rw [Entries.ofPairs_of_nodup (Entries.nodup_keys_beside keys)] at extra
    rw [encoded]
    exact .intro (fun names hnames => (set names hnames).trans (shows names hnames))
      (beside.trans extra)

end EditorEdge

namespace EditorGraph

/-- The items of a list are decoded one by one. -/
theorem forall₂_of_list {β : Type} {item : Json → Except DecodeError β} {x : Json} {ys : List β}
    (h : list item x = .ok ys) :
    List.Forall₂ (fun x y => item x = .ok y) (x.array?.getD []) ys := by
  cases x with
  | array items => exact mapM_eq_ok.mp h
  | null | bool | number | string | object => cases h

/-- What holds of the lists of a graph when this is what is written under the name of one. -/
structure Holds (name : String) (written : Option Json) (graph : EditorGraph) : Prop where
  nodes : name = "nodes" → List.Forall₂ (fun x y => EditorNode.decode x = .ok y)
    ((written.bind Json.array?).getD []) graph.nodes
  edges : name = "edges" → List.Forall₂ (fun x y => EditorEdge.decode x = .ok y)
    ((written.bind Json.array?).getD []) graph.edges
  resources : name = "resources" → List.Forall₂ (fun x y => EditorNode.decode x = .ok y)
    ((written.bind Json.array?).getD []) graph.resources

theorem holds_of_decode {input : JsonObject} {graph : EditorGraph}
    (h : decode (Json.object input) = .ok graph) :
    ∀ name ∈ ["nodes", "edges", "resources"], Holds name (input.get? name) graph := by
  have reads := record_reads (Q := Holds) h (by decide) (by simp [defaulted, Field.name]) ?_ ?_
  · simp only [List.mem_cons, List.not_mem_nil, or_false]
    rintro name (rfl | rfl | rfl) <;> rw [← Entries.under_single]
    · exact reads _ (.head _)
    · exact reads _ (.tail _ (.head _))
    · exact reads _ (.tail _ (.tail _ (.head _)))
  · simp only [List.mem_cons, List.not_mem_nil, or_false]
    rintro f (rfl | rfl | rfl) x u v run <;> obtain ⟨ys, items, rfl⟩ := map_eq_ok.mp run
    · refine ⟨fun _ => ⟨fun _ => forall₂_of_list items, fun same => ?_, fun same => ?_⟩, ?_⟩
      · exact absurd same (by decide)
      · exact absurd same (by decide)
      · exact fun name ne o hu => ⟨fun same => absurd same ne, hu.edges, hu.resources⟩
    · refine ⟨fun _ => ⟨fun same => ?_, fun _ => forall₂_of_list items, fun same => ?_⟩, ?_⟩
      · exact absurd same (by decide)
      · exact absurd same (by decide)
      · exact fun name ne o hu => ⟨hu.nodes, fun same => absurd same ne, hu.resources⟩
    · refine ⟨fun _ => ⟨fun same => ?_, fun same => ?_, fun _ => forall₂_of_list items⟩, ?_⟩
      · exact absurd same (by decide)
      · exact absurd same (by decide)
      · exact fun name ne o hu => ⟨hu.nodes, hu.edges, fun same => absurd same ne⟩
  · exact fun name => ⟨fun _ => .nil, fun _ => .nil, fun _ => .nil⟩

/-- What holds of each item that is read and written again holds of the whole list. -/
theorem forall₂_encode {β : Type} {item : Json → Except DecodeError β} {encode : β → Json}
    {R : Json → Json → Prop} {xs : List Json} {ys : List β} (keyed : ∀ x ∈ xs, x.Keyed)
    (one : ∀ {x y}, x.Keyed → item x = .ok y → R x (encode y))
    (h : List.Forall₂ (fun x y => item x = .ok y) xs ys) : List.Forall₂ R xs (ys.map encode) := by
  rw [List.forall₂_map_right_iff]
  exact ((List.forall₂_and_left _ _).mpr ⟨keyed, h⟩).imp fun _ _ both => one both.1 both.2

/-- A graph that has been read is read again as what it was written as, and nothing that was written
of its nodes, connections and resources is lost. -/
theorem rewriting_keeps {value : Json} {graph : EditorGraph} (keyed : value.Keyed)
    (read : ofJson value = .ok graph) :
    ofJson graph.encode = .ok graph ∧
      (∀ again, ofJson graph.encode = .ok again → again.encode = graph.encode) ∧
      List.Forall₂ EditorNode.Rewritten (value.listed "nodes") (graph.encode.listed "nodes") ∧
      List.Forall₂ EditorEdge.Rewritten (value.listed "edges") (graph.encode.listed "edges") ∧
      List.Forall₂ EditorNode.Rewritten (value.listed "resources")
        (graph.encode.listed "resources") := by
  cases value with
  | object input =>
    have decoded : decode (Json.object input) = .ok graph := mapError_eq_ok.mp read
    have back : ofJson graph.encode = .ok graph :=
      mapError_eq_ok.mpr (decode_encode (legible_of_decode decoded))
    have holds := holds_of_decode decoded
    refine ⟨back, fun again h => ?_, ?_, ?_, ?_⟩
    · rw [Except.ok.inj (back.symm.trans h)]
    · exact forall₂_encode (fun _ => keyed.of_listed) EditorNode.rewritten_of_decode
        ((holds "nodes" (.head _)).nodes rfl)
    · exact forall₂_encode (fun _ => keyed.of_listed) EditorEdge.rewritten_of_decode
        ((holds "edges" (.tail _ (.head _))).edges rfl)
    · exact forall₂_encode (fun _ => keyed.of_listed) EditorNode.rewritten_of_decode
        ((holds "resources" (.tail _ (.tail _ (.head _)))).resources rfl)
  | null | bool | number | string | array => cases read

/-- A graph in the other spelling: nulls, a field that is absent, and keys beside the fields. -/
def sketch : Json :=
  .object
    [ ("nodes", .array
        [ .object [("position", .object [("x", .number (.integer 4))]), ("id", .string "a")],
          .object [("data", .object [("type", .string "note")]), ("id", .string "b")] ]),
      ("edges", .array
        [ .object
            [ ("animated", .bool true), ("source_handle", .string "out"), ("target", .string "b"),
              ("source", .string "a"), ("targetHandle", .null), ("label", .null) ] ]),
      ("viewport", .null) ]

/-- The graph that is read from it. -/
def sketched : EditorGraph :=
  { nodes :=
      [ { id := "a", extra := [("position", .object [("x", .number (.integer 4))])] },
        { id := "b", data := [("type", .string "note")] } ],
    edges :=
      [ { source := "a", target := "b", sourceHandle := some "out",
          extra := [("animated", .bool true)] } ] }

theorem rewriting_keeps_sketch :
    sketch.Keyed ∧ ofJson sketch = .ok sketched ∧
      ofJson sketched.encode = .ok sketched ∧
      (∀ again, ofJson sketched.encode = .ok again → again.encode = sketched.encode) ∧
      List.Forall₂ EditorNode.Rewritten (sketch.listed "nodes") (sketched.encode.listed "nodes") ∧
      List.Forall₂ EditorEdge.Rewritten (sketch.listed "edges") (sketched.encode.listed "edges") ∧
      List.Forall₂ EditorNode.Rewritten (sketch.listed "resources")
        (sketched.encode.listed "resources") := by
  have keyed : sketch.Keyed := by simp [sketch, Entries.keys]
  have read : ofJson sketch = .ok sketched := by rfl
  exact ⟨keyed, read, rewriting_keeps keyed read⟩

end EditorGraph

end WorkflowCompiler
