import Mathlib.Data.List.Infix
import Mathlib.Tactic.Common

/-!
# Globs

Patterns with two wildcards, over any alphabet. Letters are compared after they are folded.
-/

namespace Glob

inductive Token (α : Type)
  | any
  | one
  | lit (a : α)
  deriving DecidableEq

variable {α β : Type} [DecidableEq β] (fold : α → β)

def isMatch : List (Token α) → List α → Bool
  | [], text => text.isEmpty
  | .any :: tokens, text => text.tails.any (isMatch tokens)
  | .one :: _, [] => false
  | .one :: tokens, _ :: text => isMatch tokens text
  | .lit _ :: _, [] => false
  | .lit a :: tokens, c :: text => fold a = fold c && isMatch tokens text

attribute [local simp] isMatch

variable {fold} {tokens : List (Token α)} {text : List α}

theorem isMatch_any :
    isMatch fold (.any :: tokens) text = true ↔ ∃ front rest, text = front ++ rest ∧ isMatch fold tokens rest = true := by
  rw [isMatch, List.any_eq_true]
  constructor
  · rintro ⟨rest, hrest, hmatch⟩
    obtain ⟨front, rfl⟩ := (List.mem_tails _ _).mp hrest
    exact ⟨front, rest, rfl, hmatch⟩
  · rintro ⟨front, rest, rfl, hmatch⟩
    exact ⟨rest, (List.mem_tails _ _).mpr (List.suffix_append _ _), hmatch⟩

/-- The letters that a token takes; a star takes none by itself. -/
def Token.takes (fold : α → β) : Token α → α → Bool
  | .any, _ => false
  | .one, _ => true
  | .lit a, c => fold a = fold c

attribute [local simp] Token.takes

theorem isMatch_letter {token : Token α} (htoken : token ≠ .any) :
    isMatch fold (token :: tokens) text = true ↔
      ∃ c rest, text = c :: rest ∧ token.takes fold c = true ∧ isMatch fold tokens rest = true := by
  cases text with
  | nil =>
      cases token with
      | any => exact absurd rfl htoken
      | one | lit a => simp [isMatch]
  | cons c text =>
      cases token with
      | any => exact absurd rfl htoken
      | one => simp [isMatch, Token.takes]
      | lit a => simp [isMatch, Token.takes]

theorem isMatch_append {others : List (Token α)} :
    isMatch fold (tokens ++ others) text = true ↔
      ∃ front rest, text = front ++ rest ∧ isMatch fold tokens front = true ∧ isMatch fold others rest = true := by
  induction tokens generalizing text with
  | nil =>
      constructor
      · intro h
        exact ⟨[], text, rfl, rfl, h⟩
      · rintro ⟨front, rest, rfl, hfront, hrest⟩
        obtain rfl := List.isEmpty_iff.mp hfront
        exact hrest
  | cons token tokens ih =>
      by_cases htoken : token = .any
      · subst htoken
        rw [List.cons_append, isMatch_any]
        constructor
        · rintro ⟨skip, text, rfl, htext⟩
          obtain ⟨front, rest, rfl, hfront, hrest⟩ := ih.mp htext
          exact ⟨skip ++ front, rest, (List.append_assoc _ _ _).symm, isMatch_any.mpr ⟨skip, front, rfl, hfront⟩, hrest⟩
        · rintro ⟨both, rest, rfl, hboth, hrest⟩
          obtain ⟨skip, front, rfl, hfront⟩ := isMatch_any.mp hboth
          exact ⟨skip, front ++ rest, List.append_assoc _ _ _, ih.mpr ⟨front, rest, rfl, hfront, hrest⟩⟩
      · rw [List.cons_append, isMatch_letter htoken]
        constructor
        · rintro ⟨c, text, rfl, htakes, htext⟩
          obtain ⟨front, rest, rfl, hfront, hrest⟩ := ih.mp htext
          exact ⟨c :: front, rest, rfl, (isMatch_letter htoken).mpr ⟨c, front, rfl, htakes, hfront⟩, hrest⟩
        · rintro ⟨both, rest, rfl, hboth, hrest⟩
          obtain ⟨c, front, rfl, htakes, hfront⟩ := (isMatch_letter htoken).mp hboth
          exact ⟨c, front ++ rest, rfl, htakes, ih.mpr ⟨front, rest, rfl, hfront, hrest⟩⟩

/-- A pattern that is not made of stars only needs a letter. -/
theorem ne_nil_of_isMatch (htokens : ∃ token ∈ tokens, token ≠ .any) (h : isMatch fold tokens text = true) :
    text ≠ [] := by
  rintro rfl
  induction tokens with
  | nil => simp at htokens
  | cons token tokens ih =>
      cases token with
      | any =>
          obtain ⟨front, rest, hnil, hrest⟩ := isMatch_any.mp h
          obtain ⟨-, rfl⟩ := List.append_eq_nil_iff.mp hnil.symm
          obtain ⟨other, hmem, hother⟩ := htokens
          rcases List.mem_cons.mp hmem with rfl | hmem
          · exact hother rfl
          · exact ih ⟨other, hmem, hother⟩ hrest
      | one => cases h
      | lit a => cases h

theorem isMatch_one_any : isMatch fold [.one, .any] text = true ↔ text ≠ [] := by
  cases text with
  | nil => simp [isMatch]
  | cons c text =>
      simp only [ne_eq, reduceCtorEq, not_false_eq_true, iff_true]
      exact isMatch_any.mpr ⟨text, [], (List.append_nil _).symm, rfl⟩

theorem isMatch_lits {letters : List α} :
    isMatch fold (letters.map .lit) text = true ↔ letters.map fold = text.map fold := by
  induction letters generalizing text with
  | nil =>
      cases text with
      | nil => simp [isMatch]
      | cons c text => simp [isMatch]
  | cons a letters ih =>
      cases text with
      | nil => simp [isMatch]
      | cons c text => simp [isMatch, ih]

end Glob
