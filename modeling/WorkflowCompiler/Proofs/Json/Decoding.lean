import WorkflowCompiler.Json.Decoding
import WorkflowCompiler.Proofs.Entries
import WorkflowCompiler.Proofs.Results

/-!
# Records that are read

What every field of a record keeps holds of the record that is read, and a record that is written
with one entry for each field is read field by field.
-/
namespace WorkflowCompiler

namespace Json

/-- Whether no key occurs twice in any object, as in a map. -/
inductive Keyed : Json → Prop
  | null : Keyed .null
  | bool (b : Bool) : Keyed (.bool b)
  | number (n : JsonNumber) : Keyed (.number n)
  | string (text : String) : Keyed (.string text)
  | array {items : List Json} (each : ∀ item ∈ items, Keyed item) : Keyed (.array items)
  | object {fields : JsonObject} (keys : (Entries.keys fields).Nodup)
      (each : ∀ field ∈ fields, Keyed field.2) : Keyed (.object fields)

attribute [simp] Keyed.null Keyed.bool Keyed.number Keyed.string

@[simp] theorem keyed_array {items : List Json} :
    Keyed (.array items) ↔ ∀ item ∈ items, Keyed item :=
  ⟨fun h => by cases h; assumption, .array⟩

@[simp] theorem keyed_object {fields : JsonObject} :
    Keyed (.object fields) ↔ (Entries.keys fields).Nodup ∧ ∀ field ∈ fields, Keyed field.2 :=
  ⟨fun h => by cases h; exact ⟨‹_›, ‹_›⟩, fun h => .object h.1 h.2⟩

end Json

namespace Decode

theorem Field.name_mem {α σ : Type} (field : Field α σ) {key : String} (h : key ∈ field.names) :
    field.name ∈ field.names := by
  unfold Field.name
  cases hnames : field.names with
  | nil => simp [hnames] at h
  | cons name others => simp

section Fields

variable {α σ : Type} [Readable α] {fields : List (Field α σ)}
  {other : String → α → σ → Except DecodeError σ} {cut : Bool} {seen : List String} {s t : σ}

omit [Readable α] in
/-- Nothing is left to read: no entry was cut off, and the required fields have been read. -/
theorem storeFields_nil_eq_ok (run : storeFields fields other cut seen s [] = .ok t) :
    checkRequired fields seen = .ok () ∧ t = s := by
  rw [storeFields] at run
  cases cut with
  | true => cases run
  | false =>
    obtain ⟨_, given, run⟩ := bind_eq_ok.mp run
    exact ⟨given, (pure_eq_ok.mp run).symm⟩

omit [Readable α] in
/-- An entry is that of a field which has not been read yet, or it is none of the fields. -/
theorem storeFields_cons_eq_ok {key : String} {x : α} {rest : List (String × α)}
    (run : storeFields fields other cut seen s ((key, x) :: rest) = .ok t) :
    (∃ f ∈ fields, key ∈ f.names ∧ seen.contains f.name = false ∧ ∃ u, f.store x s = .ok u ∧
      storeFields fields other cut (f.name :: seen) u rest = .ok t) ∨
    (fields.find? (fun field => field.names.contains key) = none ∧ ∃ u, other key x s = .ok u ∧
      storeFields fields other cut seen u rest = .ok t) := by
  rw [storeFields] at run
  split at run
  · next f hf =>
    split at run
    · cases run
    · next new =>
      obtain ⟨u, hu, run⟩ := bind_eq_ok.mp run
      exact .inl ⟨f, List.mem_of_find?_eq_some hf, by simpa using List.find?_some hf,
        by simpa using new, u, hu, run⟩
  · next hf =>
    obtain ⟨u, hu, run⟩ := bind_eq_ok.mp run
    exact .inr ⟨hf, u, hu, run⟩

omit [Readable α] in
/-- What every field and every other part keeps holds of the record in the end. -/
theorem storeFields_keeps {P : σ → Prop} {entries : List (String × α)}
    (field : ∀ field ∈ fields, ∀ x s t, P s → field.store x s = .ok t → P t)
    (others : ∀ key x s t, fields.find? (fun field => field.names.contains key) = none → P s →
      other key x s = .ok t → P t)
    (h : P s) (run : storeFields fields other cut seen s entries = .ok t) : P t := by
  induction entries generalizing seen s with
  | nil => exact (storeFields_nil_eq_ok run).2 ▸ h
  | cons e rest ih =>
    obtain ⟨f, hf, -, -, u, hu, run⟩ | ⟨hf, u, hu, run⟩ := storeFields_cons_eq_ok run
    · exact ih (field f hf e.2 s u h hu) run
    · exact ih (others e.1 e.2 s u hf h hu) run

omit [Readable α] in
/-- A name is a name of one field only. -/
theorem Field.eq_of_mem_names (distinct : (fields.flatMap Field.names).Nodup) {f g : Field α σ}
    (hf : f ∈ fields) (hg : g ∈ fields) {name : String} (mem : name ∈ f.names)
    (mem' : name ∈ g.names) : f = g := by
  induction fields with
  | nil => cases hf
  | cons first rest ih =>
    rw [List.flatMap_cons] at distinct
    obtain ⟨-, inner, apart⟩ := List.nodup_append.mp distinct
    rcases List.mem_cons.mp hf with rfl | behind <;> rcases List.mem_cons.mp hg with rfl | behind'
    · rfl
    · exact absurd rfl (apart name mem name (List.mem_flatMap.mpr ⟨g, behind', mem'⟩))
    · exact absurd rfl (apart name mem' name (List.mem_flatMap.mpr ⟨f, behind, mem⟩))
    · exact ih inner behind behind'

omit [Readable α] in
/-- A field holds what is written under one of its names. `o` is what has been read of it so far; it
is read once at most, and exactly once if it has to be there. -/
theorem storeFields_reads {entries : List (String × α)} {field : Field α σ}
    {Q : Option α → σ → Prop} {o : Option α} (distinct : (fields.flatMap Field.names).Nodup)
    (mem : field ∈ fields) (named : field.name ∈ field.names)
    (mine : ∀ key x s t, (key, x) ∈ entries → Q none s → field.store x s = .ok t → Q (some x) t)
    (theirs : ∀ f ∈ fields, f.name ≠ field.name → ∀ o key x s t, (key, x) ∈ entries → Q o s →
      f.store x s = .ok t → Q o t)
    (others : ∀ o key x s t, Q o s → other key x s = .ok t → Q o t)
    (once : o.isSome = seen.contains field.name) (h : Q o s)
    (run : storeFields fields other cut seen s entries = .ok t) :
    Q (o.or (Entries.under field.names entries)) t ∧
      (field.required = true → (o.or (Entries.under field.names entries)).isSome = true) := by
  induction entries generalizing seen s o with
  | nil =>
    obtain ⟨given, rfl⟩ := storeFields_nil_eq_ok run
    refine ⟨by simpa [Entries.under] using h, fun required => ?_⟩
    unfold checkRequired at given
    split at given
    · cases given
    · next none =>
      have there := List.find?_eq_none.mp none field mem
      simpa [required, Entries.under, once] using there
  | cons e rest ih =>
    obtain ⟨key, x⟩ := e
    have mine' := fun key x s t mem => mine key x s t (List.mem_cons_of_mem _ mem)
    have theirs' := fun f hf ne o key x s t mem =>
      theirs f hf ne o key x s t (List.mem_cons_of_mem _ mem)
    obtain ⟨f, hmem, hkey, new, u, hu, run⟩ | ⟨hf, u, hu, run⟩ := storeFields_cons_eq_ok run
    · by_cases same : f.name = field.name
      · obtain rfl := Field.eq_of_mem_names distinct hmem mem (f.name_mem hkey) (same ▸ named)
        obtain rfl : o = none := by simpa using once.trans new
        rw [Entries.under_cons_of_mem hkey]
        refine ih mine' theirs' ?_ (mine key x s u List.mem_cons_self h hu) run
        simp
      · have hfield : key ∉ field.names := fun mine =>
          same (Field.eq_of_mem_names distinct hmem mem hkey mine ▸ rfl)
        rw [Entries.under_cons_of_not_mem hfield]
        refine ih mine' theirs' ?_ (theirs f hmem same o key x s u List.mem_cons_self h hu) run
        simp [once, Ne.symm same]
    · have hfield : key ∉ field.names := by simpa using List.find?_eq_none.mp hf field mem
      rw [Entries.under_cons_of_not_mem hfield]
      exact ih mine' theirs' once (others _ key x s u h hu) run

/-- The same of a record that is given as a list. -/
theorem storeItems_keeps {P : σ → Prop} {title : String} {items given : List α}
    {more : List (Field α σ)}
    (field : ∀ field ∈ more, ∀ x s t, P s → field.store x s = .ok t → P t)
    (h : P s) (run : storeItems title fields items more given s = .ok t) : P t := by
  induction more generalizing given s with
  | nil =>
    cases given with
    | nil => exact Except.ok.inj run ▸ h
    | cons x xs => cases run
  | cons f more ih =>
    cases given with
    | nil =>
      rw [storeItems] at run
      obtain ⟨_, -, run⟩ := bind_eq_ok.mp run
      exact pure_eq_ok.mp run ▸ h
    | cons x xs =>
      rw [storeItems] at run
      obtain ⟨u, hu, run⟩ := bind_eq_ok.mp run
      exact ih (fun g hg => field g (List.mem_cons_of_mem _ hg))
        (field f List.mem_cons_self x s u h hu) run

/-- A record holds what all its fields keep. -/
theorem record_keeps {P : σ → Prop} {title : String} {x : α}
    (field : ∀ field ∈ fields, ∀ x s t, P s → field.store x s = .ok t → P t)
    (h : P s) (run : record title fields s x = .ok t) : P t := by
  unfold record at run
  split at run
  · exact storeItems_keeps field h run
  · refine storeFields_keeps field (fun key x s t _ h run => ?_) h run
    obtain ⟨_, -, rfl⟩ := map_eq_ok.mp run
    exact h
  · cases run

/-- A record that keeps everything holds what its fields and the other parts keep. -/
theorem openRecord_keeps {P : σ → Prop} {title : String} {keep : String → Json → σ → σ} {x : α}
    (field : ∀ field ∈ fields, ∀ x s t, P s → field.store x s = .ok t → P t)
    (others : ∀ key value s, fields.find? (fun field => field.names.contains key) = none → P s →
      P (keep key value s))
    (h : P s) (run : openRecord title fields keep s x = .ok t) : P t := by
  unfold openRecord at run
  split at run
  · refine storeFields_keeps field (fun key x s t hf h run => ?_) h run
    obtain ⟨value, -, rfl⟩ := map_eq_ok.mp run
    exact others key value s hf h
  · cases run

theorem list_eq_ok {β : Type} {item : α → Except DecodeError β} {x : α} {ys : List β}
    (h : list item x = .ok ys) : ∀ y ∈ ys, ∃ x, item x = .ok y := by
  unfold list at h
  split at h
  · next xs _ =>
    intro y hy
    obtain ⟨z, -, hz⟩ := exists_of_mem_right (mapM_eq_ok.mp h) hy
    exact ⟨z, hz⟩
  · cases h

theorem nodup_of_map {β : Type} {item : α → Except DecodeError β} {x : α} {ys : Entries β}
    (h : map item x = .ok ys) : (Entries.keys ys).Nodup := by
  unfold map at h
  split at h
  · next fields cut _ =>
    obtain ⟨pairs, -, h⟩ := bind_eq_ok.mp h
    cases cut with
    | true => cases h
    | false => exact pure_eq_ok.mp h ▸ Entries.nodup_keys_ofPairs pairs
  · cases h

end Fields

/-- A field that is known and new is stored. -/
theorem storeFields_cons {α σ : Type} {fields : List (Field α σ)} {seen : List String} {s t : σ}
    {other : String → α → σ → Except DecodeError σ} {key : String} {x : α}
    {rest : List (String × α)} {field : Field α σ}
    (found : fields.find? (fun field => field.names.contains key) = some field)
    (new : seen.contains field.name = false) (stored : field.store x s = .ok t) :
    storeFields fields other false seen s ((key, x) :: rest) =
      storeFields fields other false (field.name :: seen) t rest := by
  rw [storeFields, found]
  simp only [new, stored, bind, Except.bind, Bool.false_eq_true, if_false]

section Written

variable {σ : Type} {fields : List (Field Json σ)} {seen : List String} {s t : σ}

/-- What is in none of the fields is kept in order. -/
theorem storeFields_others {keep : String → Json → σ → σ} {entries : JsonObject}
    (none : ∀ key ∈ Entries.keys entries,
      fields.find? (fun field => field.names.contains key) = none)
    (given : checkRequired fields seen = .ok ()) :
    storeFields fields (fun key x s => (json x).map fun value => keep key value s) false seen s
      entries = .ok (entries.foldl (fun s e => keep e.1 e.2 s) s) := by
  induction entries generalizing s with
  | nil =>
    rw [storeFields, given]
    rfl
  | cons e rest ih =>
    obtain ⟨key, x⟩ := e
    rw [storeFields, none key (by simp [Entries.keys])]
    exact ih fun k hk => none k (List.mem_cons_of_mem _ hk)

/-- What is in none of the fields is kept, all of it and in order. -/
theorem storeFields_beside {keep : String → Json → σ → σ} {cut : Bool} {entries : JsonObject}
    (extra : σ → JsonObject)
    (run : storeFields fields (fun key x s => (json x).map fun value => keep key value s) cut seen s
      entries = .ok t)
    (stores : ∀ f ∈ fields, ∀ x s t, f.store x s = .ok t → extra t = extra s)
    (keeps : ∀ key value s, extra (keep key value s) = (extra s).insert key value) :
    extra t = (extra s).insertAll (Entries.beside (fields.flatMap Field.names) entries) := by
  induction entries generalizing seen s with
  | nil => exact (storeFields_nil_eq_ok run).2 ▸ rfl
  | cons e rest ih =>
    obtain ⟨key, x⟩ := e
    obtain ⟨f, hmem, hkey, -, u, hu, run⟩ | ⟨hf, u, hu, run⟩ := storeFields_cons_eq_ok run
    · have named : key ∈ fields.flatMap Field.names := List.mem_flatMap.mpr ⟨f, hmem, hkey⟩
      rw [ih run, stores f hmem x s u hu, Entries.beside_cons_of_mem named]
    · have unnamed : key ∉ fields.flatMap Field.names := by
        simpa [List.mem_flatMap] using List.find?_eq_none.mp hf
      obtain rfl := Except.ok.inj hu
      rw [ih run, keeps, Entries.beside_cons_of_not_mem unnamed]
      rfl

/-- What an open record shows of its fields is what is written under their names. -/
theorem openRecord_shows {title : String} {keep : String → Json → σ → σ} {entries : JsonObject}
    (shown : String → σ → Json)
    (run : openRecord title fields keep s (Json.object entries) = .ok t)
    (distinct : (fields.flatMap Field.names).Nodup)
    (named : ∀ f ∈ fields, f.name ∈ f.names)
    (stores : ∀ f ∈ fields, ∀ key x s t, (key, x) ∈ entries → f.store x s = .ok t →
      ∀ g ∈ fields, shown g.name t = if g.name = f.name then x else shown g.name s)
    (keeps : ∀ name key value s, shown name (keep key value s) = shown name s) :
    ∀ f ∈ fields, shown f.name t = (Entries.under f.names entries).getD (shown f.name s) ∧
      (f.required = true → (Entries.under f.names entries).isSome = true) := by
  intro f hf
  let Q (o : Option Json) (u : σ) : Prop := shown f.name u = o.getD (shown f.name s)
  have start : Q none s := rfl
  refine storeFields_reads (Q := Q) distinct hf (named f hf) ?_ ?_ ?_ rfl start run
  · intro key x u v hx _ hv
    exact (stores f hf key x u v hx hv f hf).trans (if_pos rfl)
  · intro g hg ne o key x u v hx hu hv
    exact (stores g hg key x u v hx hv f hf).trans ((if_neg (Ne.symm ne)).trans hu)
  · intro o key x u v hu hv
    obtain ⟨value, -, rfl⟩ := map_eq_ok.mp hv
    exact (keeps f.name key value u).trans hu

/-- Where a field that need not be there shows null until it is read, what it shows is given exactly
if it is written. -/
theorem given_of_shows {σ : Type} {fields : List (Field Json σ)} {entries : JsonObject}
    {shown : String → σ → Json} {s t : σ}
    (shows : ∀ f ∈ fields, shown f.name t = (entries.under f.names).getD (shown f.name s) ∧
      (f.required = true → (entries.under f.names).isSome = true))
    (absent : ∀ f ∈ fields, f.required = false → (shown f.name s).isNull = true) :
    ∀ f ∈ fields, ((some (shown f.name t)).filter fun value => !value.isNull) =
      (entries.under f.names).filter fun value => !value.isNull := by
  intro f hf
  obtain ⟨eq, given⟩ := shows f hf
  rw [eq]
  cases written : entries.under f.names with
  | some value => rfl
  | none =>
    rw [written] at given
    have optional : f.required = false := by
      cases h : f.required with
      | true => cases given h
      | false => rfl
    simp [absent f hf optional]

/-- What holds of each field when it is read from what is written under its names holds of a record
that is read. -/
theorem record_reads {σ : Type} {title : String} {fields : List (Field Json σ)}
    {entries : JsonObject} {s t : σ} {Q : String → Option Json → σ → Prop}
    (run : record title fields s (Json.object entries) = .ok t)
    (distinct : (fields.flatMap Field.names).Nodup) (named : ∀ f ∈ fields, f.name ∈ f.names)
    (stores : ∀ f ∈ fields, ∀ x u v, f.store x u = .ok v →
      (Q f.name none u → Q f.name (some x) v) ∧ ∀ name ≠ f.name, ∀ o, Q name o u → Q name o v)
    (start : ∀ name, Q name none s) :
    ∀ f ∈ fields, Q f.name (entries.under f.names) t := by
  intro f hf
  refine (storeFields_reads (Q := Q f.name) distinct hf (named f hf) ?_ ?_ ?_ rfl (start f.name)
    run).1
  · exact fun _ x u v _ hu hv => (stores f hf x u v hv).1 hu
  · exact fun g hg ne o _ x u v _ hu hv => (stores g hg x u v hv).2 f.name (Ne.symm ne) o hu
  · intro o key x u v hu hv
    obtain ⟨_, -, rfl⟩ := map_eq_ok.mp hv
    exact hu

theorem eq_of_string {x : Json} {text : String} (h : string x = .ok text) : x = .string text := by
  cases x with
  | string _ => rw [Except.ok.inj h]
  | null | bool | number | array | object => cases h

theorem eq_of_optional_string {x : Json} {text : Option String}
    (h : optional string x = .ok text) : x = .ofString? text := by
  cases x with
  | null => rw [← Except.ok.inj h]; rfl
  | string _ => rw [← Except.ok.inj h]; rfl
  | bool | number | array | object => cases h

/-- An object without repeated keys is read as it is. -/
theorem eq_of_map_json {fields entries : JsonObject} (keys : (Entries.keys fields).Nodup)
    (h : map json (Json.object fields) = .ok entries) : entries = fields := by
  obtain ⟨pairs, read, h⟩ := bind_eq_ok.mp h
  have same : List.Forall₂ Eq fields pairs := (mapM_eq_ok.mp read).imp fun e p h => Except.ok.inj h
  rw [List.forall₂_eq_eq_eq] at same
  subst same
  rw [← pure_eq_ok.mp h]
  exact Entries.ofPairs_of_nodup keys

theorem eq_of_keyed_map {x : Json} {entries : JsonObject} (keyed : x.Keyed)
    (h : map json x = .ok entries) : x = .object entries := by
  cases keyed with
  | object keys _ => rw [eq_of_map_json keys h]
  | null | bool | number | string | array => cases h

/-- A list is read back when its items are. -/
theorem list_encoded {β : Type} {item : Json → Except DecodeError β} {encode : β → Json}
    {xs : List β} (h : ∀ x ∈ xs, item (encode x) = .ok x) :
    list item (Json.array (xs.map encode)) = .ok xs :=
  mapM_eq_ok.mpr (List.forall₂_map_left_iff.mpr (List.forall₂_same.mpr h))

end Written

end Decode

end WorkflowCompiler
