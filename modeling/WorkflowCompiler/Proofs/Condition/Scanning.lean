import WorkflowCompiler.Condition.Basic
import WorkflowCompiler.Proofs.Number.Digits

/-!
# The tokens of a condition

The expression language of the engine takes a text apart into tokens, character by character: words,
numbers, signs of comparison, quoted texts and brackets. A token goes on as long as it can, and
blanks stand between tokens only. Each kind of token is found again in its text, and texts with a
blank or a bracket between them are taken apart one after the other.
-/
namespace WorkflowCompiler

namespace Condition

/-- A token of the expression language. -/
inductive Token
  | inputs
  | openIndex
  | closeIndex
  | opening
  | closing
  | and
  | or
  | minus
  | number (value : Nat)
  | sign (comparison : Comparison)
  | truth (value : Bool)
  | text (value : String)
  deriving DecidableEq, Repr

namespace Token

/-- The token that a word stands for. -/
def ofWord : List Char → Option Token
  | ['x'] => some .inputs
  | ['a', 'n', 'd'] => some .and
  | ['o', 'r'] => some .or
  | ['T', 'r', 'u', 'e'] => some (.truth true)
  | ['F', 'a', 'l', 's', 'e'] => some (.truth false)
  | _ => none

/-- The token that a sign of comparison stands for. -/
def ofSign (chars : List Char) : Option Token :=
  (Comparison.all.find? fun comparison => comparison.symbol.toList = chars).map .sign

/-- What stands after a backslash. -/
def unescape : Char → Option Char
  | '\\' => some '\\'
  | '\'' => some '\''
  | 'n' => some '\n'
  | 'r' => some '\r'
  | 't' => some '\t'
  | _ => none

end Token

/-- The token that is being read. -/
inductive Pending
  | blank
  | word (letters : List Char)
  | number (value : Nat)
  | sign (chars : List Char)
  | text (chars : List Char)
  | escaped (chars : List Char)
  | whole (token : Token)

namespace Pending

/-- The token goes on with a character. -/
def extend : Pending → Char → Option Pending
  | .word letters, c => if c.isAlpha then some (.word (letters ++ [c])) else none
  | .number n, c => if c.isDigit then some (.number (10 * n + (c.toNat - '0'.toNat))) else none
  | .sign chars, c => if c = '=' then some (.sign (chars ++ [c])) else none
  | .text chars, c =>
      if c = '\'' then some (.whole (.text (String.ofList chars)))
      else if c = '\\' then some (.escaped chars)
      else if c = '\n' ∨ c = '\r' then none
      else some (.text (chars ++ [c]))
  | .escaped chars, c => (Token.unescape c).map fun d => .text (chars ++ [d])
  | _, _ => none

/-- A token begins with a character. -/
def start : Char → Option Pending
  | ' ' => some .blank
  | '[' => some (.whole .openIndex)
  | ']' => some (.whole .closeIndex)
  | '(' => some (.whole .opening)
  | ')' => some (.whole .closing)
  | '-' => some (.whole .minus)
  | '\'' => some (.text [])
  | c =>
      if c.isDigit then some (.number (c.toNat - '0'.toNat))
      else if c.isAlpha then some (.word [c])
      else if c ∈ ['<', '>', '=', '!'] then some (.sign [c])
      else none

/-- The token, if it may end here. -/
def tokens? : Pending → Option (List Token)
  | .blank => some []
  | .word letters => (Token.ofWord letters).map fun token => [token]
  | .number n => some [.number n]
  | .sign chars => (Token.ofSign chars).map fun token => [token]
  | .text _ => none
  | .escaped _ => none
  | .whole token => some [token]

end Pending

/-- How far a text has been taken apart. -/
structure Scanner where
  done : List Token := []
  pending : Pending := .blank

namespace Scanner

/-- All tokens, if the last one may end here. -/
def tokens? (s : Scanner) : Option (List Token) := s.pending.tokens?.map (s.done ++ ·)

/-- Reads one character: the token goes on, or it ends and the next one begins. -/
def step (s : Scanner) (c : Char) : Option Scanner :=
  match s.pending.extend c with
  | some pending => some { s with pending }
  | none => do return { done := ← s.tokens?, pending := ← Pending.start c }

end Scanner

/-- Takes a text apart. -/
def scan (text : List Char) : Option (List Token) := do (← text.foldlM Scanner.step {}).tokens?

namespace Scanner

variable {s : Scanner} {done : List Token}

/-- Whether no character belongs to the token that is being read. -/
def Settled (s : Scanner) : Prop := ∀ c, s.pending.extend c = none

theorem step_of_settled (settled : s.Settled) (ends : s.tokens? = some done) {c : Char}
    {pending : Pending} (starts : Pending.start c = some pending) :
    s.step c = some { done, pending } := by
  simp [step, settled c, ends, starts]

/-- A character that ends each token and is at most a token by itself. -/
inductive Mark : Char → List Token → Prop
  | blank : Mark ' ' []
  | openIndex : Mark '[' [.openIndex]
  | closeIndex : Mark ']' [.closeIndex]
  | opening : Mark '(' [.opening]
  | closing : Mark ')' [.closing]
  | minus : Mark '-' [.minus]

theorem Mark.step_eq {c : Char} {tokens : List Token} (mark : Mark c tokens)
    (ends : s.tokens? = some done) :
    ∃ t, s.step c = some t ∧ t.Settled ∧ t.tokens? = some (done ++ tokens) := by
  have apart : s.pending.extend c = none := by
    cases h : s.pending with
    | text | escaped => simp [Scanner.tokens?, Pending.tokens?, h] at ends
    | blank | whole => rfl
    | word | number | sign => cases mark <;> simp [Pending.extend]
  cases mark <;>
    exact ⟨_, by simp [step, apart, ends, Pending.start]; rfl, fun _ => rfl, by
      simp [Scanner.tokens?, Pending.tokens?]⟩

end Scanner

open Scanner

/-- Whether a text is taken apart into these tokens, wherever it stands behind the end of another
token. -/
def Scans (text : List Char) (tokens : List Token) : Prop :=
  ∀ (s : Scanner) (done : List Token), s.Settled → s.tokens? = some done →
    ∃ t, text.foldlM Scanner.step s = some t ∧ t.tokens? = some (done ++ tokens)

namespace Scans

variable {cs ds : List Char} {ts us ms : List Token} {c : Char}

theorem nil : Scans [] [] := fun s _ _ ends => ⟨s, rfl, by simpa using ends⟩

/-- Two texts with a mark between them. -/
theorem join (first : Scans cs ts) (mark : Mark c ms) (rest : Scans ds us) :
    Scans (cs ++ c :: ds) (ts ++ (ms ++ us)) := by
  intro s done settled ends
  obtain ⟨t, ht, ends⟩ := first s done settled ends
  obtain ⟨u, hu, settled, ends⟩ := mark.step_eq ends
  obtain ⟨v, hv, ends⟩ := rest u _ settled ends
  refine ⟨v, ?_, by simpa using ends⟩
  simp [List.foldlM_append, ht, hu, hv]

theorem of_start {pending : Pending} (starts : Pending.start c = some pending)
    (rest : ∀ done, ∃ t, cs.foldlM Scanner.step { done, pending } = some t ∧
      t.tokens? = some (done ++ ts)) : Scans (c :: cs) ts := by
  intro s done settled ends
  rw [List.foldlM_cons, step_of_settled settled ends starts]
  exact rest done

theorem inputs : Scans ['x'] [.inputs] := of_start rfl fun _ => ⟨_, rfl, rfl⟩

theorem and : Scans ['a', 'n', 'd'] [.and] := of_start rfl fun _ => ⟨_, rfl, rfl⟩

theorem or : Scans ['o', 'r'] [.or] := of_start rfl fun _ => ⟨_, rfl, rfl⟩

theorem sign (comparison : Comparison) : Scans comparison.symbol.toList [.sign comparison] := by
  cases comparison <;> exact of_start rfl fun _ => ⟨_, rfl, rfl⟩

theorem truth (value : Bool) : Scans (Literal.bool value).render.toList [.truth value] := by
  cases value <;> exact of_start rfl fun _ => ⟨_, rfl, rfl⟩

/-- Digits go on with the number that is being read. -/
theorem foldlM_digits {digits : List Char} (h : ∀ c ∈ digits, c.isDigit = true) (done : List Token)
    (n : Nat) :
    digits.foldlM Scanner.step { done, pending := .number n } =
      some { done, pending := .number (Nat.ofDigitChars 10 digits n) } := by
  induction digits generalizing n with
  | nil => simp
  | cons d ds ih =>
    have goes : Scanner.step { done, pending := .number n } d =
        some { done, pending := .number (10 * n + (d.toNat - '0'.toNat)) } := by
      simp [Scanner.step, Pending.extend, h d List.mem_cons_self]
    rw [List.foldlM_cons, goes, Nat.ofDigitChars_cons]
    exact ih (fun c hc => h c (List.mem_cons_of_mem _ hc)) _

theorem start_digit {c : Char} (h : c.isDigit = true) :
    Pending.start c = some (.number (c.toNat - '0'.toNat)) := by
  -- No digit is one of the characters that are told apart first.
  unfold Pending.start
  split <;> first | cases h | rw [if_pos h]

theorem number (n : Nat) : Scans (Nat.toDigits 10 n) [.number n] := by
  obtain ⟨c, cs, digits, digit⟩ := Integer.exists_toDigits n
  have more : ∀ d ∈ cs, d.isDigit = true := fun d hd =>
    Integer.isDigit_toDigits d (digits ▸ List.mem_cons_of_mem c hd)
  have value := Nat.ofDigitChars_ten_toDigits (n := n)
  rw [digits, Nat.ofDigitChars_cons, Nat.mul_zero, Nat.zero_add] at value
  rw [digits]
  refine of_start (start_digit digit) fun done => ?_
  rw [foldlM_digits more, value]
  exact ⟨_, rfl, rfl⟩

/-- An escaped character goes on with the text that is being read. -/
theorem foldlM_escapeChar (c : Char) (done : List Token) (chars : List Char) :
    (Literal.escapeChar c).foldlM Scanner.step { done, pending := .text chars } =
      some { done, pending := .text (chars ++ [c]) } := by
  by_cases h₁ : c = '\\'
  · subst c; rfl
  by_cases h₂ : c = '\''
  · subst c; rfl
  by_cases h₃ : c = '\n'
  · subst c; rfl
  by_cases h₄ : c = '\r'
  · subst c; rfl
  by_cases h₅ : c = '\t'
  · subst c; rfl
  simp [Literal.escapeChar, Scanner.step, Pending.extend, h₁, h₂, h₃, h₄, h₅]

theorem text (value : String) : Scans (Literal.str value).render.toList [.text value] := by
  have goes : ∀ (more chars : List Char) (done : List Token),
      (more.flatMap Literal.escapeChar).foldlM Scanner.step { done, pending := .text chars } =
        some { done, pending := .text (chars ++ more) } := by
    intro more
    induction more with
    | nil => simp
    | cons c cs ih => simp [List.foldlM_append, foldlM_escapeChar, ih]
  have written : (Literal.str value).render.toList =
      '\'' :: (value.toList.flatMap Literal.escapeChar ++ ['\'']) := by
    simp [Literal.render]
  rw [written]
  refine of_start rfl fun done => ?_
  rw [List.foldlM_append, goes]
  exact ⟨_, rfl, by simp [Scanner.tokens?, Pending.tokens?]⟩

theorem scan_eq (h : Scans cs ts) : scan cs = some ts := by
  obtain ⟨t, run, ends⟩ := h {} [] (fun _ => rfl) rfl
  simpa [scan, run] using ends

end Scans

end Condition

end WorkflowCompiler
