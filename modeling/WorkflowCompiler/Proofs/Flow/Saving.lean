import WorkflowCompiler.Flow.Basic
import WorkflowCompiler.Proofs.Json.Decoding
import WorkflowCompiler.Proofs.Json.Reading

/-!
# Flows that are loaded

A document that is read from the text of a value decodes as the value does, field by field. So a flow
whose numbers are integers of 64 bits and that nests no deeper than is read is loaded as it was saved.
-/
namespace WorkflowCompiler

namespace Document

theorem ofItems_eq_map (items : List Json) : ofItems items = items.map ofJson := by
  induction items with
  | nil => rfl
  | cons item rest ih => rw [ofItems, ih, List.map_cons]

theorem ofFields_eq_map (fields : JsonObject) :
    ofFields fields = fields.map fun field => (field.1, ofJson field.2) := by
  induction fields with
  | nil => rfl
  | cons field rest ih => rw [ofFields, ih, List.map_cons]

theorem itemsToJson?_ofItems {items : List Json}
    (h : ∀ item ∈ items, (ofJson item).toJson? = some item) :
    itemsToJson? (ofItems items) = some items := by
  induction items with
  | nil => rfl
  | cons item rest ih =>
    have behind := ih fun x hx => h x (List.mem_cons_of_mem _ hx)
    simp [ofItems, itemsToJson?, h item, behind]

theorem fieldsToJson?_ofFields {fields : JsonObject}
    (h : ∀ field ∈ fields, (ofJson field.2).toJson? = some field.2) :
    fieldsToJson? (ofFields fields) = some fields := by
  induction fields with
  | nil => rfl
  | cons field rest ih =>
    have behind := ih fun x hx => h x (List.mem_cons_of_mem _ hx)
    simp [ofFields, fieldsToJson?, h field, behind]

/-- The document of a value stands for that value. -/
theorem toJson?_ofJson {value : Json} (keyed : value.Keyed) :
    (ofJson value).toJson? = some value := by
  induction keyed with
  | null | bool | number | string => rfl
  | array each ih => rw [ofJson, toJson?, itemsToJson?_ofItems ih, Option.map_some]
  | object keys each ih =>
    rw [ofJson, toJson?, fieldsToJson?_ofFields ih, Option.map_some, Entries.ofPairs_of_nodup keys]

end Document

namespace Decode

open Document (ofJson)

theorem json_ofJson {value : Json} (keyed : value.Keyed) : json (ofJson value) = .ok value := by
  simp only [json, Readable.toJson, Document.toJson?_ofJson keyed]

/-- A list is read when its items are. -/
theorem list_ofJson {β : Type} {item : Document → Except DecodeError β} {encode : β → Json}
    {xs : List β} (h : ∀ x ∈ xs, item (ofJson (encode x)) = .ok x) :
    list item (ofJson (.array (xs.map encode))) = .ok xs := by
  show (Document.ofItems (xs.map encode)).mapM item = .ok xs
  rw [Document.ofItems_eq_map, List.map_map]
  exact mapM_eq_ok.mpr (List.forall₂_map_left_iff.mpr (List.forall₂_same.mpr h))

/-- An object without repeated keys is read as it is. -/
theorem map_ofJson {entries : JsonObject} (keyed : (Json.object entries).Keyed) :
    map json (ofJson (.object entries)) = .ok entries := by
  obtain ⟨keys, each⟩ := Json.keyed_object.mp keyed
  have items : (Document.ofFields entries).mapM (fun field => return (field.1, ← json field.2)) =
      (.ok entries : Except DecodeError JsonObject) := by
    rw [Document.ofFields_eq_map]
    refine mapM_eq_ok.mpr (List.forall₂_map_left_iff.mpr (List.forall₂_same.mpr fun e he => ?_))
    rw [json_ofJson (each e he)]
    rfl
  show (do
    let pairs ← (Document.ofFields entries).mapM fun field => return (field.1, ← json field.2)
    return Entries.ofPairs pairs : Except DecodeError JsonObject) = _
  rw [items]
  exact congrArg Except.ok (Entries.ofPairs_of_nodup keys)

end Decode

open Decode

theorem FlowEdge.decode_ofJson (edge : FlowEdge) :
    FlowEdge.decode (Document.ofJson edge.encode) = .ok edge := by
  obtain ⟨iid, oid, formatter⟩ := edge
  cases formatter <;> rfl

namespace Flow

theorem decode_ofJson {flow : Flow} (keyed : flow.encode.Keyed) :
    decode (Document.ofJson flow.encode) = .ok flow := by
  obtain ⟨nodes, edges, resources⟩ := flow
  have each : (∀ node ∈ nodes, (Json.object node).Keyed) ∧
      ∀ resource ∈ resources, (Json.object resource).Keyed := by
    obtain ⟨-, parts⟩ := Json.keyed_object.mp keyed
    have lists := parts _ (.head _)
    have others := parts _ (.tail _ (.tail _ (.head _)))
    simp only [Json.keyed_array, List.mem_map, forall_exists_index, and_imp] at lists others
    exact ⟨fun node h => lists _ node h rfl, fun resource h => others _ resource h rfl⟩
  have readNodes := list_ofJson fun node h => map_ofJson (each.1 node h)
  have readEdges := list_ofJson fun edge (_ : edge ∈ edges) => FlowEdge.decode_ofJson edge
  have readResources := list_ofJson fun resource h => map_ofJson (each.2 resource h)
  show storeFields _ _ false [] _ _ = _
  rw [Document.ofFields_eq_map]
  simp only [fields, List.map_cons]
  rw [storeFields_cons (t := { nodes }) rfl rfl (congrArg (Except.map _) readNodes),
    storeFields_cons (t := { nodes, edges }) rfl rfl (congrArg (Except.map _) readEdges),
    storeFields_cons (t := { nodes, edges, resources }) rfl rfl
      (congrArg (Except.map _) readResources)]
  rfl

theorem load_eq {flow : Flow} (keyed : flow.encode.Keyed) (integral : flow.encode.Integral)
    (deep : flow.encode.depth ≤ Document.maxDepth) (layout : Layout) {text : String}
    (written : text.toList = layout.text 0 flow.encode) : load text = .ok flow := by
  rw [load, Document.decode, Document.ofText_eq integral deep layout written]
  simp only [decode_ofJson keyed]
  rfl

/-- A flow is loaded as it was saved, from the indented text and from the compact one. -/
theorem load_save {flow : Flow} (keyed : flow.encode.Keyed) (integral : flow.encode.Integral)
    (deep : flow.encode.depth ≤ 127) :
    load flow.save = .ok flow ∧ load flow.encode.compact = .ok flow :=
  ⟨load_eq keyed integral deep .lines (Json.toList_indented flow.encode 0),
    load_eq keyed integral deep .tight (Json.toList_compact flow.encode 0)⟩

/-- A flow with keys and texts that are escaped, the least and the greatest integer, and a formatter
on one of its connections. -/
def inkwell : Flow where
  nodes :=
    [ [("id", .string "a\"\\\n\x01é"), ("ar\tgs", .object
        [ ("least", .number (.integer (-9223372036854775808))),
          ("", .array [.number (.integer 18446744073709551615), .array [], .object [], .null]) ])],
      [] ]
  edges :=
    [ { iid := "__start__", oid := "a\"\\\n\x01é" },
      { iid := "a\"\\\n\x01é", oid := "__end__", formatter := some "\x7b\x7d, [" } ]
  resources := [[("ok", .bool true)]]

theorem load_save_inkwell :
    inkwell.encode.Keyed ∧ inkwell.encode.Integral ∧ inkwell.encode.depth ≤ 127 ∧
      load inkwell.save = .ok inkwell ∧ load inkwell.encode.compact = .ok inkwell := by
  have keyed : inkwell.encode.Keyed := by
    simp [inkwell, encode, fields, FlowEdge.encode, Entries.keys]
  have integral : inkwell.encode.Integral := by
    simp [inkwell, encode, fields, FlowEdge.encode]
    decide
  have deep : inkwell.encode.depth ≤ 127 := by decide
  exact ⟨keyed, integral, deep, load_save keyed integral deep⟩

end Flow

end WorkflowCompiler
