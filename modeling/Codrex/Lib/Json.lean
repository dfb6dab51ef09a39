import Codrex.Lib.Text

/-!
# JSON values
-/

namespace Text

inductive Json
  | null
  | bool (b : Bool)
  | num (n : Int)
  | str (s : Str)
  | arr (items : List Json)
  | obj (fields : List (Str × Json))

namespace Json

def get? (key : Str) : Json → Option Json
  | obj fields => fields.lookup key
  | _ => none

def asStr? : Json → Option Str
  | str s => some s
  | _ => none

def asInt? : Json → Option Int
  | num n => some n
  | _ => none

def asArr? : Json → Option (List Json)
  | arr items => some items
  | _ => none

def strField (key : Str) (value : Json) : Str := ((value.get? key).bind asStr?).getD []

def insert (target : Json) (key : Str) (value : Json) : Json :=
  match target with
  | obj fields => obj (fields ++ [(key, value)])
  | other => other

def ofOption {α : Type} (f : α → Json) : Option α → Json
  | some a => f a
  | none => null

end Json

end Text

/-!
## The grammar of JSON texts (RFC 8259)

Which texts are values, objects and so on. A text is derived from a nonterminal of the grammar.
-/

namespace JsonGrammar

open Text

/-- `ws`. -/
def IsWs (s : Str) : Prop := ∀ c ∈ s, c ∈ [' ', '\t', '\n', '\r']

/-! ## Numbers -/

def IsDigits (s : Str) : Prop := s ≠ [] ∧ ∀ c ∈ s, c.isDigit = true

/-- `int = zero / ( digit1-9 *DIGIT )`. -/
def IsInt (s : Str) : Prop := s = ['0'] ∨ IsDigits s ∧ s.head? ≠ some '0'

/-- `frac = decimal-point 1*DIGIT`, which may be missing. -/
def IsFrac (s : Str) : Prop := s = [] ∨ ∃ digits, s = '.' :: digits ∧ IsDigits digits

/-- `exp = e [ minus / plus ] 1*DIGIT`, which may be missing. -/
def IsExp (s : Str) : Prop :=
  s = [] ∨ ∃ e sign digits, s = e :: (sign ++ digits) ∧ e ∈ ['e', 'E'] ∧ sign ∈ [[], ['-'], ['+']] ∧ IsDigits digits

/-- `number = [ minus ] int [ frac ] [ exp ]`. -/
def IsNumber (s : Str) : Prop :=
  ∃ minus int frac exp, s = minus ++ (int ++ (frac ++ exp)) ∧ minus ∈ [[], ['-']] ∧ IsInt int ∧ IsFrac frac ∧ IsExp exp

/-! ## Strings -/

def IsHexDigit (c : Char) : Prop := c.isDigit = true ∨ 'a' ≤ c ∧ c ≤ 'f' ∨ 'A' ≤ c ∧ c ≤ 'F'

theorem IsHexDigit.ne {c : Char} (h : IsHexDigit c) : c ≠ '"' ∧ c ≠ '\\' := by
  refine ⟨?_, ?_⟩
  all_goals
    rintro rfl
    revert h
    unfold IsHexDigit
    decide

/-- `*char`, what stands between the quotation marks of a string. -/
inductive Chars : Str → Prop
  | nil : Chars []
  | unescaped {c : Char} {s : Str} (hquote : c ≠ '"') (hslash : c ≠ '\\') (hcontrol : ' ' ≤ c) (h : Chars s) :
      Chars (c :: s)
  | escaped {c : Char} {s : Str} (hc : c ∈ ['"', '\\', '/', 'b', 'f', 'n', 'r', 't']) (h : Chars s) :
      Chars ('\\' :: c :: s)
  | unicode {a b c d : Char} {s : Str} (hhex : ∀ x ∈ [a, b, c, d], IsHexDigit x) (h : Chars s) :
      Chars ('\\' :: 'u' :: a :: b :: c :: d :: s)

/-- `string = quotation-mark *char quotation-mark`. -/
def IsString (s : Str) : Prop := ∃ body, Chars body ∧ s = '"' :: (body ++ ['"'])

/-! ## Values -/

inductive Nonterminal
  | value
  | object
  | members
  | array
  | elements

/-- The rules of the grammar. `members` and `elements` are the lists between the brackets, with the white space of the
structural characters around each item. -/
inductive Derives : Nonterminal → Str → Prop
  | null : Derives .value "null"
  | true : Derives .value "true"
  | false : Derives .value "false"
  | number {s : Str} (h : IsNumber s) : Derives .value s
  | string {s : Str} (h : IsString s) : Derives .value s
  | object {s : Str} (h : Derives .object s) : Derives .value s
  | array {s : Str} (h : Derives .array s) : Derives .value s
  | emptyObject {w : Str} (hw : IsWs w) : Derives .object ('{' :: (w ++ ['}']))
  | members {s : Str} (h : Derives .members s) : Derives .object ('{' :: (s ++ ['}']))
  | member {w₁ name w₂ w₃ value w₄ : Str} (hw₁ : IsWs w₁) (hname : IsString name) (hw₂ : IsWs w₂) (hw₃ : IsWs w₃)
      (hvalue : Derives .value value) (hw₄ : IsWs w₄) :
      Derives .members (w₁ ++ (name ++ (w₂ ++ ([':'] ++ (w₃ ++ (value ++ w₄))))))
  | moreMembers {s rest : Str} (h : Derives .members s) (hrest : Derives .members rest) :
      Derives .members (s ++ ([','] ++ rest))
  | emptyArray {w : Str} (hw : IsWs w) : Derives .array (['['] ++ (w ++ [']']))
  | elements {s : Str} (h : Derives .elements s) : Derives .array (['['] ++ (s ++ [']']))
  | element {w₁ value w₂ : Str} (hw₁ : IsWs w₁) (hvalue : Derives .value value) (hw₂ : IsWs w₂) :
      Derives .elements (w₁ ++ (value ++ w₂))
  | moreElements {s rest : Str} (h : Derives .elements s) (hrest : Derives .elements rest) :
      Derives .elements (s ++ ([','] ++ rest))

/-- The text of an object, from its opening to its closing brace. -/
def IsObject (s : Str) : Prop := Derives .object s

theorem IsObject.exists_cons {s : Str} (h : IsObject s) : ∃ rest, s = '{' :: rest := by
  cases h with
  | emptyObject _ => exact ⟨_, rfl⟩
  | members _ => exact ⟨_, rfl⟩

/-! ## Plain text -/

/-- Text without quotation marks and braces. -/
def Plain (s : Str) : Prop := ∀ c ∈ s, c ≠ '"' ∧ c ≠ '{' ∧ c ≠ '}'

theorem Plain.append {s t : Str} (hs : Plain s) (ht : Plain t) : Plain (s ++ t) := by
  intro c hc
  rcases List.mem_append.mp hc with hc | hc
  · exact hs c hc
  · exact ht c hc

theorem IsWs.plain {s : Str} (h : IsWs s) : Plain s := by
  intro c hc
  have hmem := h c hc
  simp only [List.mem_cons, List.not_mem_nil, or_false] at hmem
  rcases hmem with rfl | rfl | rfl | rfl
  all_goals decide

theorem IsDigits.plain {s : Str} (h : IsDigits s) : Plain s := by
  intro c hc
  have hdigit := h.2 c hc
  refine ⟨?_, ?_, ?_⟩
  all_goals
    rintro rfl
    exact absurd hdigit (by decide)

theorem IsInt.plain {s : Str} (h : IsInt s) : Plain s := by
  rcases h with rfl | ⟨hdigits, -⟩
  · simp [Plain]
  · exact hdigits.plain

theorem IsFrac.plain {s : Str} (h : IsFrac s) : Plain s := by
  rcases h with rfl | ⟨digits, rfl, hdigits⟩
  · simp [Plain]
  · have hpoint : Plain ['.'] := by simp [Plain]
    exact hpoint.append hdigits.plain

theorem IsExp.plain {s : Str} (h : IsExp s) : Plain s := by
  rcases h with rfl | ⟨e, sign, digits, rfl, he, hsign, hdigits⟩
  · simp [Plain]
  · have hmark : Plain [e] := by
      simp only [List.mem_cons, List.not_mem_nil, or_false] at he
      rcases he with rfl | rfl
      · simp [Plain]
      · simp [Plain]
    have hplain : Plain sign := by
      simp only [List.mem_cons, List.not_mem_nil, or_false] at hsign
      rcases hsign with rfl | rfl | rfl
      · simp [Plain]
      · simp [Plain]
      · simp [Plain]
    exact hmark.append (hplain.append hdigits.plain)

theorem IsNumber.plain {s : Str} (h : IsNumber s) : Plain s := by
  obtain ⟨minus, int, frac, exp, rfl, hminus, hint, hfrac, hexp⟩ := h
  have hplain : Plain minus := by
    simp only [List.mem_cons, List.not_mem_nil, or_false] at hminus
    rcases hminus with rfl | rfl
    · simp [Plain]
    · simp [Plain]
  exact hplain.append (hint.plain.append (hfrac.plain.append hexp.plain))

end JsonGrammar
