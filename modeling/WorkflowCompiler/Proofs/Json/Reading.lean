import WorkflowCompiler.Proofs.Json.Layout
import WorkflowCompiler.Proofs.Number.Digits

/-!
# Values that are read back

The text of a value in any layout is read as that value, as long as its numbers are integers of 64
bits and it nests no deeper than is read.
-/
namespace WorkflowCompiler

/-! ## Numbers -/

namespace Document

/-- Whether nothing in front of this text goes on as a number. -/
def Stops (rest : List Char) : Prop :=
  ∀ c ∈ rest.head?, c.isDigit = false ∧ c ≠ '.' ∧ c ≠ 'e' ∧ c ≠ 'E'

theorem stops_nil : Stops [] := by simp [Stops]

theorem stops_blank {ws rest : List Char} (blank : ∀ c ∈ ws, isSpace c = true) (h : Stops rest) :
    Stops (ws ++ rest) := by
  cases ws with
  | nil => exact h
  | cons c ws =>
    have space := blank c List.mem_cons_self
    simp only [isSpace, Bool.or_eq_true, decide_eq_true_eq] at space
    rcases space with ((rfl | rfl) | rfl) | rfl <;> simp [Stops]

end Document

namespace JsonNumber

open Document (Stops)

theorem digitsOf_toDigits (n : Nat) {rest : List Char} (stops : Stops rest) :
    digitsOf (Nat.toDigits 10 n ++ rest) = (Nat.toDigits 10 n, rest) := by
  have ends : rest.takeWhile Char.isDigit = [] ∧ rest.dropWhile Char.isDigit = rest := by
    cases rest with
    | nil => simp
    | cons c cs => simp [(stops c rfl).1]
  rw [digitsOf, List.takeWhile_append_of_pos Integer.isDigit_toDigits,
    List.dropWhile_append_of_pos Integer.isDigit_toDigits, ends.1, ends.2, List.append_nil]

theorem whole?_toDigits (n : Nat) {rest : List Char} (stops : Stops rest) :
    whole? (Nat.toDigits 10 n ++ rest) = some (Nat.toDigits 10 n, rest) := by
  unfold whole?
  rw [digitsOf_toDigits n stops]
  by_cases zero : n = 0
  · subst zero
    rfl
  · have head := Integer.head?_toDigits zero
    split
    · next h => exact absurd (congrArg Prod.fst h) Nat.toDigits_ne_nil
    · next h =>
      have digits := congrArg Prod.fst h
      exact absurd (congrArg List.head? digits) head
    · rfl

theorem unsigned?_toDigits (negative : Bool) (n : Nat) {rest : List Char} (stops : Stops rest) :
    unsigned? negative (Nat.toDigits 10 n ++ rest) =
      some (⟨negative, Nat.toDigits 10 n, [], none⟩, rest) := by
  have fraction : fraction? rest = some ([], rest) := by
    unfold fraction?
    split
    · next h => exact absurd rfl (stops '.' rfl).2.1
    · rfl
  have exponent : exponentPart? rest = some (none, rest) := by
    unfold exponentPart?
    split
    · exact absurd rfl (stops 'e' rfl).2.2.1
    · exact absurd rfl (stops 'E' rfl).2.2.2
    · rfl
  simp [unsigned?, whole?_toDigits n stops, fraction, exponent]

/-- The text of an integer begins with a digit or a sign, so with no other character. -/
theorem exists_render (n : Int) :
    ∃ c cs, (integer n).render.toList = c :: cs ∧
      ∀ d : Char, d.isDigit = false → d ≠ '-' → c ≠ d := by
  cases n with
  | ofNat n =>
    obtain ⟨c, cs, digits, digit⟩ := Integer.exists_toDigits n
    refine ⟨c, cs, (Integer.toList_ofNat n).trans digits, ?_⟩
    rintro d other - rfl
    exact absurd (digit.symm.trans other) (by decide)
  | negSucc n => exact ⟨_, _, Integer.toList_negSucc n, fun d _ sign => Ne.symm sign⟩

/-- An integer of 64 bits is read as itself. -/
theorem written?_integer {n : Int} (low : Integer.minSigned ≤ n) (high : n ≤ Integer.maxUnsigned)
    {rest : List Char} (stops : Stops rest) :
    ∃ written : Written, written? ((integer n).render.toList ++ rest) = some (written, rest) ∧
      written.number? = some (integer n) := by
  cases n with
  | ofNat n =>
    refine ⟨⟨false, Nat.toDigits 10 n, [], none⟩, ?_, ?_⟩
    · have unsigned := unsigned?_toDigits false n stops
      obtain ⟨c, cs, digits, digit⟩ := Integer.exists_toDigits n
      rw [render, Int.ofNat_eq_natCast, Integer.toList_ofNat]
      rw [digits] at unsigned ⊢
      unfold written?
      split
      · next h =>
        rw [List.cons_append, List.cons.injEq] at h
        exact absurd (h.1 ▸ digit) (by decide)
      · exact unsigned
    · have fits : n ≤ Integer.maxUnsigned := Int.ofNat_le.mp high
      simp [Written.number?, Integer.digits?_toDigits, fits]
  | negSucc n =>
    refine ⟨⟨true, Nat.toDigits 10 (n + 1), [], none⟩, ?_, ?_⟩
    · rw [render, Integer.toList_negSucc]
      exact unsigned?_toDigits true (n + 1) stops
    · have fits : n + 1 ≤ twoTo 63 := by
        simp only [Integer.minSigned] at low
        omega
      simp [Written.number?, Integer.digits?_toDigits, fits, Int.negSucc_eq]

end JsonNumber

/-! ## Texts -/

namespace Document

theorem hex4?_control {n : Nat} (h : n < 32) :
    hex4? '0' '0' (Json.hexDigit (n / 16)) (Json.hexDigit (n % 16)) = some n := by
  have all : ∀ m : Fin 32,
      hex4? '0' '0' (Json.hexDigit (m / 16)) (Json.hexDigit (m % 16)) = some (m : Nat) := by
    decide
  exact all ⟨n, h⟩

/-- A character is read as it was escaped. -/
theorem stringBody_escapeChar (c : Char) (done cs : List Char) :
    stringBody done (Json.escapeChar c ++ cs) = stringBody (c :: done) cs := by
  have code {n : Nat} (h : c.toNat = n) : c = Char.ofNat n := by rw [← h, Char.ofNat_toNat]
  unfold Json.escapeChar
  split
  · subst c; simp [stringBody, shortEscape?]
  split
  · subst c; simp [stringBody, shortEscape?]
  split
  · next h => rw [code h]; simp [stringBody, shortEscape?]
  split
  · next h => rw [code h]; simp [stringBody, shortEscape?]
  split
  · next h => rw [code h]; simp [stringBody, shortEscape?]
  split
  · next h => rw [code h]; simp [stringBody, shortEscape?]
  split
  · next h => rw [code h]; simp [stringBody, shortEscape?]
  split
  · next control =>
    have low : isLowSurrogate c.toNat = false := by simp [isLowSurrogate]; omega
    have high : isHighSurrogate c.toNat = false := by simp [isHighSurrogate]; omega
    simp [stringBody, hex4?_control control, low, high, Char.ofNat_toNat]
  · next quote backslash _ _ _ _ _ control =>
    rw [List.cons_append, List.nil_append, stringBody]
    · simp [control, backslash]
    all_goals simp_all

/-- A text is read back up to its closing quote. -/
theorem stringBody_quote (text : String) (rest : List Char) :
    ∃ body, (Json.quote text).toList ++ rest = '"' :: body ∧
      stringBody [] body = some (text, rest) := by
  have goes : ∀ (more done : List Char),
      stringBody done (more.flatMap Json.escapeChar ++ '"' :: rest) =
        some (String.ofList (done.reverse ++ more), rest) := by
    intro more
    induction more with
    | nil => simp [stringBody]
    | cons c cs ih => simp [stringBody_escapeChar, ih]
  refine ⟨text.toList.flatMap Json.escapeChar ++ '"' :: rest, ?_, ?_⟩
  · simp [Json.quote]
  · simp [goes]

/-! ## Values -/

mutual

/-- A value as a document without flaws. -/
def ofJson : Json → Document
  | .null => .null
  | .bool b => .bool b
  | .number n => .number n
  | .string text => .string text
  | .array items => .array (ofItems items)
  | .object fields => .object (ofFields fields) none

/-- Values as documents. -/
def ofItems : List Json → List Document
  | [] => []
  | item :: rest => ofJson item :: ofItems rest

/-- Fields as fields of documents. -/
def ofFields : List (String × Json) → List (String × Document)
  | [] => []
  | (key, value) :: rest => (key, ofJson value) :: ofFields rest

end

theorem skipSpaces_blank {ws : List Char} (blank : ∀ c ∈ ws, isSpace c = true) (cs : List Char) :
    skipSpaces (ws ++ cs) = skipSpaces cs := List.dropWhile_append_of_pos blank

theorem skipSpaces_cons {c : Char} (h : isSpace c = false) (cs : List Char) :
    skipSpaces (c :: cs) = c :: cs := List.dropWhile_cons_of_neg (by simp [h])

theorem readValue_blank {ws : List Char} (blank : ∀ c ∈ ws, isSpace c = true) (depth : Nat)
    (cs : List Char) : readValue depth (ws ++ cs) = readValue depth cs := by
  cases depth <;> simp only [readValue, skipSpaces_blank blank]

theorem readValue_scalar (depth : Nat) {c : Char} {cs : List Char} (space : isSpace c = false)
    (bracket : c ≠ '[') (brace : c ≠ '{') : readValue depth (c :: cs) = readScalar (c :: cs) := by
  cases depth <;> rw [readValue, skipSpaces_cons space] <;> split <;> simp_all

/-- The text of a value begins with a character that is neither a blank nor a bracket that closes. -/
theorem exists_text {value : Json} (integral : value.Integral) (layout : Layout) (level : Nat) :
    ∃ c cs, layout.text level value = c :: cs ∧ isSpace c = false ∧ c ≠ ']' ∧ c ≠ '}' := by
  cases integral with
  | null => exact ⟨_, _, rfl, by decide⟩
  | bool b => cases b <;> exact ⟨_, _, rfl, by decide⟩
  | @integer n low high =>
    obtain ⟨c, cs, text, apart⟩ := JsonNumber.exists_render n
    have space : isSpace c = false := by simp [isSpace, apart]
    exact ⟨c, cs, text, space, apart _ (by decide) (by decide), apart _ (by decide) (by decide)⟩
  | string text =>
    obtain ⟨body, begins, -⟩ := stringBody_quote text []
    exact ⟨'"', body, by rw [Layout.text, ← begins, List.append_nil], by decide⟩
  | @array items each => cases items <;> exact ⟨_, _, rfl, by decide⟩
  | @object fields each => cases fields <;> exact ⟨_, _, rfl, by decide⟩

theorem readScalar_integer {n : Int} (low : Integer.minSigned ≤ n)
    (high : n ≤ Integer.maxUnsigned) {rest : List Char} (stops : Stops rest) :
    readScalar ((JsonNumber.integer n).render.toList ++ rest) =
      (.number (.integer n), some rest) := by
  obtain ⟨written, reads, value⟩ := JsonNumber.written?_integer low high stops
  obtain ⟨c, cs, text, apart⟩ := JsonNumber.exists_render n
  rw [text] at reads ⊢
  unfold readScalar
  split
  · next h => exact absurd (List.cons.inj h).1 (apart _ (by decide) (by decide))
  · next h => exact absurd (List.cons.inj h).1 (apart _ (by decide) (by decide))
  · next h => exact absurd (List.cons.inj h).1 (apart _ (by decide) (by decide))
  · next h => exact absurd (List.cons.inj h).1 (apart _ (by decide) (by decide))
  · rw [reads]
    simp [value]

section Parts

variable {layout : Layout} {level : Nat} {value : List Char → Reading} {rest : List Char}

/-- Whether a value is read in front of everything that ends it, whatever blanks stand before it. -/
def Reads (layout : Layout) (level : Nat) (value : List Char → Reading) (v : Json) : Prop :=
  ∀ ws, (∀ c ∈ ws, isSpace c = true) → ∀ rest, Stops rest →
    value (ws ++ (layout.text level v ++ rest)) = (ofJson v, some rest)

theorem stops_moreItems (layout : Layout) (level : Nat) (items : List Json) (stops : Stops rest) :
    Stops (layout.moreItems level items ++ rest) := by
  cases items with
  | nil => exact stops
  | cons item items => simp [Layout.moreItems, Stops]

theorem stops_moreFields (layout : Layout) (level : Nat) (fields : List (String × Json))
    (stops : Stops rest) :
    Stops (layout.moreFields level fields ++ rest) := by
  cases fields with
  | nil => exact stops
  | cons field fields => simp [Layout.moreFields, Stops]

theorem length_moreItems (layout : Layout) (level : Nat) (items : List Json) :
    items.length ≤ (layout.moreItems level items).length := by
  induction items with
  | nil => simp
  | cons item items ih => simp [Layout.moreItems]; omega

theorem length_moreFields (layout : Layout) (level : Nat) (fields : List (String × Json)) :
    fields.length ≤ (layout.moreFields level fields).length := by
  induction fields with
  | nil => simp
  | cons field fields ih => simp [Layout.moreFields]; omega

/-- The items of an array are read one after the other. -/
theorem readItems_text {item : Json} {items : List Json} {n : Nat} (fits : items.length < n)
    (reads : ∀ x ∈ item :: items, Reads layout level value x) {ws ends : List Char}
    (blank : ∀ c ∈ ws, isSpace c = true) (blank' : ∀ c ∈ ends, isSpace c = true)
    (rest : List Char) :
    readItems value n (ws ++ (layout.text level item ++ (layout.moreItems level items ++
      (ends ++ ']' :: rest)))) = (ofItems (item :: items), some rest) := by
  have closes : Stops (ends ++ ']' :: rest) := stops_blank blank' (by simp [Stops])
  induction items generalizing item n ws with
  | nil =>
    obtain ⟨n, rfl⟩ : ∃ m, n = m + 1 := ⟨n - 1, by omega⟩
    have first := reads item List.mem_cons_self ws blank _ closes
    rw [Layout.moreItems, List.nil_append, readItems, first]
    simp only [skipSpaces_blank blank']
    rfl
  | cons next items ih =>
    obtain ⟨n, rfl⟩ : ∃ m, n = m + 1 := ⟨n - 1, by omega⟩
    have first := reads item List.mem_cons_self ws blank _
      (stops_moreItems layout level (next :: items) closes)
    have behind := ih (n := n) (by simp at fits; omega)
      (fun x hx => reads x (List.mem_cons_of_mem _ hx)) (layout.line_blank level)
    rw [readItems, first]
    simp only [Layout.moreItems, List.cons_append, List.append_assoc] at behind ⊢
    rw [skipSpaces_cons (by decide)]
    simp only [behind, ofItems]

/-- The fields of an object are read one after the other. -/
theorem readFields_text {key : String} {v : Json} {fields : List (String × Json)} {n : Nat}
    (fits : fields.length < n)
    (reads : ∀ x ∈ (key, v) :: fields, Reads layout level value x.2) {ws ends : List Char}
    (blank : ∀ c ∈ ws, isSpace c = true) (blank' : ∀ c ∈ ends, isSpace c = true)
    (rest : List Char) :
    readFields value n (ws ++ ((Json.quote key).toList ++ ':' :: (layout.colon ++
      (layout.text level v ++ (layout.moreFields level fields ++ (ends ++ '}' :: rest)))))) =
      ⟨ofFields ((key, v) :: fields), none, some rest⟩ := by
  have closes : Stops (ends ++ '}' :: rest) := stops_blank blank' (by simp [Stops])
  have colon {cs : List Char} : skipSpaces (':' :: cs) = ':' :: cs := skipSpaces_cons (by decide) cs
  induction fields generalizing key v n ws with
  | nil =>
    obtain ⟨n, rfl⟩ : ∃ m, n = m + 1 := ⟨n - 1, by omega⟩
    have first := reads (key, v) List.mem_cons_self layout.colon layout.colon_blank _ closes
    rw [Layout.moreFields, List.nil_append]
    obtain ⟨body, begins, text⟩ := stringBody_quote key (':' :: (layout.colon ++
      (layout.text level v ++ (ends ++ '}' :: rest))))
    rw [begins, readFields, skipSpaces_blank blank, skipSpaces_cons (by decide)]
    simp only [text, colon, first, skipSpaces_blank blank']
    rfl
  | cons next fields ih =>
    obtain ⟨n, rfl⟩ : ∃ m, n = m + 1 := ⟨n - 1, by omega⟩
    obtain ⟨name, other⟩ := next
    have stops := stops_moreFields layout level ((name, other) :: fields) closes
    have first := reads (key, v) List.mem_cons_self layout.colon layout.colon_blank _ stops
    have behind := ih (n := n) (by simp at fits; omega)
      (fun x hx => reads x (List.mem_cons_of_mem _ hx)) (layout.line_blank level)
    obtain ⟨body, begins, text⟩ := stringBody_quote key (':' :: (layout.colon ++
      (layout.text level v ++ (layout.moreFields level ((name, other) :: fields) ++
        (ends ++ '}' :: rest)))))
    rw [begins, readFields, skipSpaces_blank blank, skipSpaces_cons (by decide)]
    simp only [text, colon, first]
    simp only [Layout.moreFields, List.cons_append, List.append_assoc] at behind ⊢
    rw [skipSpaces_cons (by decide)]
    simp only [behind, ofFields]
    rfl

theorem readArray_text {item : Json} {items : List Json} (integral : item.Integral)
    (reads : ∀ x ∈ item :: items, Reads layout (level + 1) value x) :
    readArray value (layout.line (level + 1) ++ (layout.text (level + 1) item ++
      (layout.moreItems (level + 1) items ++ (layout.line level ++ ']' :: rest)))) =
      (.array (ofItems (item :: items)), some rest) := by
  obtain ⟨c, cs, text, space, bracket, -⟩ := exists_text integral layout (level + 1)
  have front (more : List Char) : skipSpaces (layout.text (level + 1) item ++ more) =
      layout.text (level + 1) item ++ more := by
    rw [text]
    exact skipSpaces_cons space _
  unfold readArray
  rw [skipSpaces_blank (layout.line_blank _), front]
  split
  · next h =>
    rw [text, List.cons_append, List.cons.injEq] at h
    exact absurd h.1 bracket
  · have fits := length_moreItems layout (level + 1) items
    have all := readItems_text (n := (layout.text (level + 1) item ++
        (layout.moreItems (level + 1) items ++ (layout.line level ++ ']' :: rest))).length)
      (by simp only [List.length_append, List.length_cons]; omega) reads (List.forall_mem_nil _)
      (layout.line_blank level) rest
    rw [List.nil_append] at all
    rw [all]

theorem readObject_text {key : String} {v : Json} {fields : List (String × Json)}
    (reads : ∀ x ∈ (key, v) :: fields, Reads layout (level + 1) value x.2) :
    readObject value (layout.line (level + 1) ++ ((Json.quote key).toList ++ ':' ::
      (layout.colon ++ (layout.text (level + 1) v ++ (layout.moreFields (level + 1) fields ++
        (layout.line level ++ '}' :: rest)))))) =
      (.object (ofFields ((key, v) :: fields)) none, some rest) := by
  have fits := length_moreFields layout (level + 1) fields
  have all := readFields_text (n := ((Json.quote key).toList ++ ':' ::
      (layout.colon ++ (layout.text (level + 1) v ++ (layout.moreFields (level + 1) fields ++
        (layout.line level ++ '}' :: rest))))).length)
    (by simp only [List.length_append, List.length_cons]; omega) reads (List.forall_mem_nil _)
    (layout.line_blank level) rest
  unfold readObject
  rw [skipSpaces_blank (layout.line_blank _)]
  obtain ⟨body, begins, -⟩ := stringBody_quote key (':' :: (layout.colon ++
    (layout.text (level + 1) v ++ (layout.moreFields (level + 1) fields ++
      (layout.line level ++ '}' :: rest)))))
  rw [List.nil_append] at all
  rw [begins] at all ⊢
  rw [skipSpaces_cons (by decide)]
  show (readFields value ('"' :: body).length ('"' :: body)).toReading = _
  rw [all]
  rfl

end Parts

/-- A value is read as it was written, with any blanks between its parts. -/
theorem readValue_text {v : Json} (integral : v.Integral) (layout : Layout) (level : Nat)
    {depth : Nat} (deep : v.depth ≤ depth) {rest : List Char} (stops : Stops rest) :
    readValue depth (layout.text level v ++ rest) = (ofJson v, some rest) := by
  induction integral generalizing depth level rest with
  | null => exact readValue_scalar depth (by decide) (by decide) (by decide)
  | bool b => cases b <;> exact readValue_scalar depth (by decide) (by decide) (by decide)
  | @integer n low high =>
    have scalar := readScalar_integer low high stops
    obtain ⟨c, cs, text, apart⟩ := JsonNumber.exists_render n
    have space : isSpace c = false := by simp [isSpace, apart]
    rw [Layout.text]
    rw [text] at scalar ⊢
    exact (readValue_scalar depth space (apart _ (by decide) (by decide))
      (apart _ (by decide) (by decide))).trans scalar
  | string text =>
    obtain ⟨body, begins, reads⟩ := stringBody_quote text rest
    rw [Layout.text, begins, readValue_scalar depth (by decide) (by decide) (by decide)]
    simp only [readScalar, reads]
    rfl
  | @array items each ih =>
    obtain ⟨depth, rfl⟩ : ∃ d, depth = d + 1 := ⟨depth - 1, by simp [Json.depth] at deep; omega⟩
    have inner := Json.itemsDepth_le_iff.mp (Nat.le_of_succ_le_succ deep)
    cases items with
    | nil => rfl
    | cons item items =>
      have reads : ∀ x ∈ item :: items, Reads layout (level + 1) (readValue depth) x := by
        intro x hx ws blank rest stops
        rw [readValue_blank blank]
        exact ih x hx (level + 1) (inner x hx) stops
      simp only [Layout.text, List.cons_append, List.append_assoc, List.nil_append]
      exact readArray_text (each item List.mem_cons_self) reads
  | @object fields each ih =>
    obtain ⟨depth, rfl⟩ : ∃ d, depth = d + 1 := ⟨depth - 1, by simp [Json.depth] at deep; omega⟩
    have inner := Json.fieldsDepth_le_iff.mp (Nat.le_of_succ_le_succ deep)
    cases fields with
    | nil => rfl
    | cons field fields =>
      have reads : ∀ x ∈ field :: fields, Reads layout (level + 1) (readValue depth) x.2 := by
        intro x hx ws blank rest stops
        rw [readValue_blank blank]
        exact ih x hx (level + 1) (inner x hx) stops
      simp only [Layout.text, List.cons_append, List.append_assoc, List.nil_append]
      exact readObject_text reads

/-- A whole text that is that of a value in some layout is read as the value, and completely. -/
theorem ofText_eq {v : Json} (integral : v.Integral) (deep : v.depth ≤ maxDepth) (layout : Layout)
    {text : String} (written : text.toList = layout.text 0 v) :
    ofText text = ⟨ofJson v, true⟩ := by
  have whole := readValue_text integral layout 0 deep stops_nil
  rw [List.append_nil] at whole
  rw [ofText, written, whole]
  rfl

end Document

end WorkflowCompiler
