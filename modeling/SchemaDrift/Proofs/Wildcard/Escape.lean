import Mathlib.Data.List.DropRight
import SchemaDrift.Wildcard.Pattern

/-!
# Escaped texts are patterns

An escaped text is read one token for each of its characters, whatever stands before and behind it
(`readTokens_escape`), so no text makes a pattern invalid that it was escaped into. Escaping also
leaves the slashes at the end of a text where they are (`rdropWhile_escape`).
-/

namespace SchemaDrift.Wildcard

/-- The token that an escaped character is read as. -/
def literal (c : Char) : Token :=
  if isSpecial c then .within [.single c] else .char c

/-- A special character in brackets is read as itself. -/
theorem readBracket?_special {c : Char} (h : isSpecial c) (rest : List Char) :
    readBracket? (c :: ']' :: rest) = some (.within [.single c], 3) := by
  simp only [isSpecial, Bool.or_eq_true, beq_iff_eq] at h
  rcases h with ((rfl | rfl) | rfl) | rfl <;> simp [readBracket?, setText?, readSet]

/-- An escaped character is read as one token. -/
theorem readTokens_escapeChar (c : Char) (i : Nat) (before : Option Char) (tokens : List Token)
    (rest : List Char) : ∃ i' before',
      readTokens 0 i before tokens (escapeChar c ++ rest) =
        readTokens 0 i' before' (literal c :: tokens) rest := by
  by_cases hc : isSpecial c
  · refine ⟨i + 3, some ']', ?_⟩
    simp [escapeChar, literal, hc, readTokens, readBracket?_special hc]
  · refine ⟨i + 1, some c, ?_⟩
    have hne : c ≠ '?' ∧ c ≠ '*' ∧ c ≠ '[' := by
      refine ⟨?_, ?_, ?_⟩ <;> rintro rfl <;> exact hc rfl
    simp [escapeChar, literal, hc, readTokens, hne]

/-- An escaped text is read as the tokens of its characters, in front of any text. -/
theorem readTokens_escape (cs : List Char) (i : Nat) (before : Option Char) (tokens : List Token)
    (rest : List Char) : ∃ i' before',
      readTokens 0 i before tokens (cs.flatMap escapeChar ++ rest) =
        readTokens 0 i' before' ((cs.map literal).reverse ++ tokens) rest := by
  induction cs generalizing i before tokens with
  | nil => exact ⟨i, before, rfl⟩
  | cons c cs ih =>
    obtain ⟨i₁, b₁, h₁⟩ := readTokens_escapeChar c i before tokens (cs.flatMap escapeChar ++ rest)
    obtain ⟨i₂, b₂, h₂⟩ := ih i₁ b₁ (literal c :: tokens)
    refine ⟨i₂, b₂, ?_⟩
    rw [List.flatMap_cons, List.append_assoc, h₁, h₂]
    simp

/-- The slashes at the end of an escaped text are those at the end of the text. -/
theorem rdropWhile_escape (cs : List Char) :
    (cs.flatMap escapeChar).rdropWhile (· = '/') =
      (cs.rdropWhile (· = '/')).flatMap escapeChar := by
  induction cs using List.reverseRecOn with
  | nil => rfl
  | append_singleton cs c ih =>
    rw [List.flatMap_append, List.rdropWhile_concat]
    by_cases hc : c = '/'
    · subst hc
      have he : ['/'].flatMap escapeChar = ['/'] := rfl
      rw [he, List.rdropWhile_concat]
      simpa using ih
    · by_cases hs : isSpecial c
      · have he : [c].flatMap escapeChar = ['[', c] ++ [']'] := by simp [escapeChar, hs]
        rw [he, ← List.append_assoc, List.rdropWhile_concat]
        simp [hc, escapeChar, hs]
      · have he : [c].flatMap escapeChar = [c] := by simp [escapeChar, hs]
        rw [he, List.rdropWhile_concat]
        simp [hc, escapeChar, hs]

end SchemaDrift.Wildcard
