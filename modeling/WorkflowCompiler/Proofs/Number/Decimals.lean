import WorkflowCompiler.Number.Reading
import WorkflowCompiler.Number.Shortest
import WorkflowCompiler.Proofs.Number.Numerals

/-!
# Doubles that texts denote

A text denotes a double when it is a decimal or one of the names of infinity and of "not a number",
behind an optional sign. A decimal has digits with at most one point among or around them, and an
optional exponent. Reading accepts just these texts.
-/
namespace WorkflowCompiler

namespace Decimal

/-- What stands behind the whole part, and the digits of the fraction in it. -/
inductive Point : List Char → List Char → Prop
  | none : Point [] []
  | some {fraction : List Char} (each : ∀ c ∈ fraction, c.isDigit = true) :
      Point ('.' :: fraction) fraction

/-- Which texts are an exponent that may be absent. -/
inductive Power : List Char → Int → Prop
  | none : Power [] 0
  | some {mark : Char} {text : List Char} {n : Int} (marked : mark = 'e' ∨ mark = 'E')
      (numeral : Integer.Numeral text n) : Power (mark :: text) n

/-- Which decimal a text denotes. -/
inductive Numeral : List Char → Decimal → Prop
  | intro {whole point fraction power : List Char} {x : Int}
      (each : ∀ c ∈ whole, c.isDigit = true) (behind : Point point fraction)
      (nonempty : whole ++ fraction ≠ []) (scaled : Power power x) :
      Numeral (whole ++ (point ++ power))
        ⟨Nat.ofDigitChars 10 (whole ++ fraction) 0, x - fraction.length⟩

theorem Point.each {point fraction : List Char} (behind : Point point fraction) :
    ∀ c ∈ fraction, c.isDigit = true := by
  cases behind with
  | none => simp
  | some each => exact each

theorem Power.stops {power : List Char} {x : Int} (scaled : Power power x) :
    ∀ c ∈ power.head?, c.isDigit = false ∧ c ≠ '.' := by
  cases scaled with
  | none => simp
  | some marked _ => rcases marked with rfl | rfl <;> simp

/-- A decimal begins with a digit or with its point. -/
theorem Numeral.exists_head {text : List Char} {d : Decimal} (numeral : Numeral text d) :
    ∃ c rest, text = c :: rest ∧ (c.isDigit = true ∨ c = '.') := by
  obtain ⟨each, behind, nonempty, -⟩ := numeral
  rename_i whole point fraction power x
  cases whole with
  | cons c cs => exact ⟨c, _, rfl, .inl (each c List.mem_cons_self)⟩
  | nil =>
    cases behind with
    | none => exact absurd rfl nonempty
    | some _ => exact ⟨'.', _, rfl, .inr rfl⟩

/-- There is something in a text that denotes a decimal, and no blank. -/
theorem Numeral.solid {text : List Char} {d : Decimal} (numeral : Numeral text d) :
    text ≠ [] ∧ ∀ c ∈ text, Text.isBlank c = false := by
  obtain ⟨c, rest, head, -⟩ := numeral.exists_head
  refine ⟨by simp [head], ?_⟩
  obtain ⟨each, behind, -, scaled⟩ := numeral
  have point : ∀ {point fraction}, Point point fraction → ∀ c ∈ point, Text.isBlank c = false := by
    rintro _ _ (_ | each) c hc
    · cases hc
    · rcases List.mem_cons.mp hc with rfl | hc
      · decide
      · exact Integer.isBlank_of_isDigit (each c hc)
  have power : ∀ {power x}, Power power x → ∀ c ∈ power, Text.isBlank c = false := by
    rintro _ _ (_ | ⟨marked, numeral⟩) c hc
    · cases hc
    · rcases List.mem_cons.mp hc with rfl | hc
      · rcases marked with rfl | rfl <;> decide
      · exact numeral.solid.2 c hc
  simp only [List.forall_mem_append]
  exact ⟨fun c hc => Integer.isBlank_of_isDigit (each c hc), point behind, power scaled⟩

end Decimal

namespace Double

open Integer (Sign Unsigned)

/-- Whether a text is a word but for the case of its letters. -/
def Name (word : String) (text : List Char) : Prop := text.map Char.toLower = word.toList

instance (word : String) (text : List Char) : Decidable (Name word text) :=
  inferInstanceAs (Decidable (_ = _))

/-- Which double a text without a sign denotes, behind a sign. -/
inductive Magnitude (negative : Bool) : List Char → Double → Prop
  | decimal {text : List Char} {d : Decimal} (numeral : Decimal.Numeral text d) :
      Magnitude negative text (.ofDecimal negative d.digits d.exponent)
  | infinity {text : List Char} (name : Name "inf" text ∨ Name "infinity" text) :
      Magnitude negative text (.infinite negative)
  | nan {text : List Char} (name : Name "nan" text) : Magnitude negative text .nan

/-- Which double a text denotes. -/
inductive Numeral : List Char → Double → Prop
  | intro {sign text : List Char} {negative : Bool} {value : Double}
      (signed : Sign sign negative) (magnitude : Magnitude negative text value) :
      Numeral (sign ++ text) value

/-! ## Decimals -/

/-- Digits at the front end where something else stands. -/
theorem span_digits {digits rest : List Char} (each : ∀ c ∈ digits, c.isDigit = true)
    (stops : ∀ c ∈ rest.head?, c.isDigit = false) :
    (digits ++ rest).takeWhile Char.isDigit = digits ∧
      (digits ++ rest).dropWhile Char.isDigit = rest := by
  rw [List.takeWhile_append_of_pos each, List.dropWhile_append_of_pos each]
  cases rest with
  | nil => simp
  | cons c cs => simp [stops c rfl]

/-- Every text is digits and something else behind them. -/
theorem exists_span (text : List Char) :
    ∃ digits rest, (∀ c ∈ digits, c.isDigit = true) ∧ (∀ c ∈ rest.head?, c.isDigit = false) ∧
      text = digits ++ rest := by
  refine ⟨text.takeWhile Char.isDigit, text.dropWhile Char.isDigit,
    List.all_eq_true.mp List.all_takeWhile, fun c hc => ?_, List.takeWhile_append_dropWhile.symm⟩
  have first := List.head?_dropWhile_not Char.isDigit text
  rw [Option.mem_def.mp hc] at first
  simpa using first

theorem exponent?_eq_some_iff {cs : List Char} {x : Int} :
    exponent? cs = some x ↔ Decimal.Power cs x := by
  cases cs with
  | nil =>
    constructor
    · intro h
      obtain rfl := Option.some.inj h
      exact .none
    · intro h
      cases h
      rfl
  | cons c cs =>
    rw [exponent?]
    constructor
    · intro h
      split at h
      · next marked => exact .some marked (Integer.signed?_eq_some_iff.mp h)
      · cases h
    · intro h
      cases h with
      | some marked numeral =>
        rw [if_pos marked]
        exact Integer.signed?_eq_some_iff.mpr numeral

/-- A decimal is read from its whole part, its fraction and what stands behind them. -/
theorem decimal?_append {whole point fraction rest : List Char}
    (each : ∀ c ∈ whole, c.isDigit = true) (behind : Decimal.Point point fraction)
    (stops : ∀ c ∈ rest.head?, c.isDigit = false ∧ (point = [] → c ≠ '.')) (negative : Bool) :
    decimal? negative (whole ++ (point ++ rest)) =
      (Integer.digits? (whole ++ fraction)).bind fun digits =>
        (exponent? rest).map fun x => ofDecimal negative digits (x - fraction.length) := by
  have ends : ∀ c ∈ rest.head?, c.isDigit = false := fun c hc => (stops c hc).1
  cases behind with
  | none =>
    obtain ⟨front, back⟩ := span_digits each ends
    rw [decimal?, List.nil_append, front, back]
    split
    next found =>
    split at found
    · exact absurd rfl ((stops '.' rfl).2 rfl)
    · cases found
      rfl
  | some digits =>
    obtain ⟨front, back⟩ := @span_digits whole ('.' :: fraction ++ rest) each (by simp)
    obtain ⟨middle, end_⟩ := span_digits digits ends
    rw [decimal?, front, back]
    simp [middle, end_]

/-- Every text can be taken apart as a decimal is. -/
theorem exists_decimal (text : List Char) :
    ∃ whole point fraction rest, (∀ c ∈ whole, c.isDigit = true) ∧
      Decimal.Point point fraction ∧
      (∀ c ∈ rest.head?, c.isDigit = false ∧ (point = [] → c ≠ '.')) ∧
      text = whole ++ (point ++ rest) := by
  obtain ⟨whole, rest, each, stops, rfl⟩ := exists_span text
  by_cases pointed : rest.head? = some '.'
  · obtain ⟨rest, rfl⟩ := List.head?_eq_some_iff.mp pointed
    obtain ⟨fraction, rest, digits, ends, rfl⟩ := exists_span rest
    exact ⟨whole, _, fraction, rest, each, .some digits, fun c hc => ⟨ends c hc, by simp⟩, rfl⟩
  · refine ⟨whole, _, _, rest, each, .none, fun c hc => ⟨stops c hc, ?_⟩, rfl⟩
    rintro - rfl
    exact pointed hc

/-- Reading accepts the texts that denote a decimal. -/
theorem decimal?_eq_some_iff {negative : Bool} {cs : List Char} {value : Double} :
    decimal? negative cs = some value ↔
      ∃ d, Decimal.Numeral cs d ∧ ofDecimal negative d.digits d.exponent = value := by
  constructor
  · obtain ⟨whole, point, fraction, rest, each, behind, stops, rfl⟩ := exists_decimal cs
    rw [decimal?_append each behind stops]
    intro h
    obtain ⟨n, found, h⟩ := Option.bind_eq_some_iff.mp h
    obtain ⟨x, scaled, rfl⟩ := Option.map_eq_some_iff.mp h
    obtain ⟨digits, rfl⟩ := Integer.digits?_eq_some_iff.mp found
    exact ⟨_, .intro each behind digits.nonempty (exponent?_eq_some_iff.mp scaled), rfl⟩
  · rintro ⟨_, ⟨each, behind, nonempty, scaled⟩, rfl⟩
    have digits : Integer.Digits _ :=
      ⟨nonempty, List.forall_mem_append.mpr ⟨each, behind.each⟩⟩
    have stops := scaled.stops
    rw [decimal?_append each behind fun c hc => ⟨(stops c hc).1, fun _ => (stops c hc).2⟩,
      Integer.digits?_eq_some_iff.mpr ⟨digits, rfl⟩, exponent?_eq_some_iff.mpr scaled]
    rfl

/-! ## Names -/

theorem toLower_eq_self {c : Char} (small : ¬(65 ≤ c.toNat ∧ c.toNat ≤ 90)) : c.toLower = c :=
  dif_neg fun ⟨low, high⟩ => small ⟨low, high⟩

theorem asciiLower_eq_toLower (c : Char) : asciiLower c = c.toLower := by
  by_cases capital : 65 ≤ c.toNat ∧ c.toNat ≤ 90
  · have valid : (c.toNat + 32).isValidChar := .inl (by omega)
    have small : asciiLower c = Char.ofNatAux (c.toNat + 32) valid :=
      (if_pos capital).trans (dif_pos valid)
    have small' : c.toLower.toNat = (c.val + 32).toNat := congrArg Char.toNat (dif_pos capital)
    have sum : (c.val + 32).toNat = c.toNat + 32 := by
      have wrapped := UInt32.toNat_add c.val 32
      have bound : c.val.toNat ≤ 90 := capital.2
      have step : (32 : UInt32).toNat = 32 := rfl
      show _ = c.val.toNat + 32
      omega
    rw [small, ← Char.toNat_inj, small', sum]
    rfl
  · rw [toLower_eq_self capital]
    exact if_neg capital

theorem name_iff {word : String} {text : List Char} :
    String.ofList (text.map asciiLower) = word ↔ Name word text := by
  rw [Name, funext asciiLower_eq_toLower, ← String.toList_inj, String.toList_ofList]

theorem Name.unique {word word' : String} {text : List Char} (name : Name word text)
    (name' : Name word' text) : word = word' :=
  String.toList_inj.mp (name.symm.trans name')

/-- No name is a decimal, since its first letter is neither a digit nor a point. -/
theorem Name.not_numeral {word : String} {text : List Char} (name : Name word text)
    (letter : ∀ c ∈ word.toList.head?, c.isDigit = false ∧ c ≠ '.') {d : Decimal} :
    ¬Decimal.Numeral text d := by
  intro numeral
  obtain ⟨c, rest, rfl, first⟩ := numeral.exists_head
  have same : c.toLower = c := by
    refine toLower_eq_self fun capital => ?_
    rcases first with digit | rfl
    · have high := (Integer.digit_bounds digit).2
      omega
    · exact absurd capital (by decide)
  have head : c ∈ word.toList.head? := by
    rw [← name, List.map_cons, same]
    exact rfl
  obtain ⟨other, plain⟩ := letter c head
  rcases first with digit | point
  · exact absurd (digit.symm.trans other) (by decide)
  · exact plain point

theorem Name.unsigned {word : String} {text : List Char} (name : Name word text)
    (letter : Unsigned word.toList) : Unsigned text := by
  intro c hc
  obtain ⟨rest, rfl⟩ := List.head?_eq_some_iff.mp hc
  rw [← name, List.map_cons] at letter
  constructor <;> rintro rfl
  · exact (letter _ rfl).1 (by decide)
  · exact (letter _ rfl).2 (by decide)

theorem Name.solid {word : String} {text : List Char} (name : Name word text)
    (letters : word.toList ≠ [] ∧ ∀ c ∈ word.toList, Text.isBlank c = false) :
    text ≠ [] ∧ ∀ c ∈ text, Text.isBlank c = false := by
  refine ⟨?_, fun c hc => ?_⟩
  · rintro rfl
    exact letters.1 name.symm
  · by_cases capital : 65 ≤ c.toNat ∧ c.toNat ≤ 90
    · exact Text.isBlank_of_visible (by omega) (by omega)
    · have member : c.toLower ∈ word.toList := name ▸ List.mem_map_of_mem hc
      rw [toLower_eq_self capital] at member
      exact letters.2 c member

/-! ## Doubles -/

/-- Reading what stands behind the sign accepts decimals and names. -/
theorem unsigned?_eq_some_iff {negative : Bool} {cs : List Char} {value : Double} :
    unsigned? negative cs = some value ↔ Magnitude negative cs value := by
  simp only [unsigned?, name_iff]
  constructor
  · intro h
    split at h
    · next name =>
      cases h
      exact .nan name
    split at h
    · next name =>
      cases h
      exact .infinity name
    · obtain ⟨d, numeral, rfl⟩ := decimal?_eq_some_iff.mp h
      exact .decimal numeral
  · intro h
    cases h with
    | nan name => rw [if_pos name]
    | infinity name =>
      have other : ¬Name "nan" cs := by
        rcases name with name | name <;> exact fun name' => absurd (name.unique name') (by decide)
      rw [if_neg other, if_pos name]
    | decimal numeral =>
      have other : ¬Name "nan" cs := fun name => name.not_numeral (by simp) numeral
      have other' : ¬(Name "inf" cs ∨ Name "infinity" cs) := by
        rintro (name | name) <;> exact name.not_numeral (by simp) numeral
      rw [if_neg other, if_neg other']
      exact decimal?_eq_some_iff.mpr ⟨_, numeral, rfl⟩

theorem Magnitude.unsigned {negative : Bool} {text : List Char} {value : Double}
    (magnitude : Magnitude negative text value) : Unsigned text := by
  cases magnitude with
  | nan name => exact name.unsigned (by simp [Unsigned])
  | infinity name => rcases name with name | name <;> exact name.unsigned (by simp [Unsigned])
  | decimal numeral =>
    obtain ⟨c, rest, rfl, first⟩ := numeral.exists_head
    rintro _ ⟨⟩
    constructor <;> rintro rfl <;> exact absurd first (by decide)

theorem Magnitude.solid {negative : Bool} {text : List Char} {value : Double}
    (magnitude : Magnitude negative text value) :
    text ≠ [] ∧ ∀ c ∈ text, Text.isBlank c = false := by
  cases magnitude with
  | nan name => exact name.solid (by simp [Text.isBlank])
  | infinity name => rcases name with name | name <;> exact name.solid (by simp [Text.isBlank])
  | decimal numeral => exact numeral.solid

/-- There is something in a text that denotes a double, and no blank. -/
theorem Numeral.solid {text : List Char} {value : Double} (numeral : Numeral text value) :
    text ≠ [] ∧ ∀ c ∈ text, Text.isBlank c = false := by
  obtain ⟨signed, magnitude⟩ := numeral
  obtain ⟨nonempty, unblank⟩ := magnitude.solid
  exact ⟨by simp [nonempty], List.forall_mem_append.mpr ⟨signed.solid, unblank⟩⟩

theorem read_append {text : String} {sign rest : List Char} {negative : Bool}
    (signed : Sign sign negative) (first : sign = [] → Unsigned rest)
    (parts : text.toList = sign ++ rest) : read text = unsigned? negative rest := by
  rw [read, parts]
  cases signed with
  | minus => rfl
  | plus => rfl
  | none =>
    have unsigned := first rfl
    rw [List.nil_append]
    split
    · exact absurd rfl (unsigned '-' rfl).1
    · exact absurd rfl (unsigned '+' rfl).2
    · rfl

/-- Reading accepts the texts that denote a double. -/
theorem read_eq_some_iff {text : String} {value : Double} :
    read text = some value ↔ Numeral text.toList value := by
  constructor
  · obtain ⟨sign, negative, rest, signed, first, parts⟩ := Integer.exists_sign text.toList
    rw [read_append signed first parts, parts, unsigned?_eq_some_iff]
    exact .intro signed
  · intro h
    generalize parts : text.toList = cs at h
    obtain ⟨signed, magnitude⟩ := h
    rw [read_append signed (fun _ => magnitude.unsigned) parts]
    exact unsigned?_eq_some_iff.mpr magnitude

end Double

end WorkflowCompiler
