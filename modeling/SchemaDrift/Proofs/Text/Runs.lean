import Mathlib.Data.List.TakeWhile
import SchemaDrift.Text.CharClass

/-!
# Runs of characters of a class

A run of characters of a class that stops before what follows is taken whole: `takeWhile` gives the
run and `dropWhile` the rest, so both are determined by the whole (`append_inj_of_stop`). Trimming a
text that neither begins nor ends with a blank takes away the blanks around it, and nothing else
(`Tight.trim_padded`).
-/

namespace SchemaDrift.Text

variable {α : Type} {p : α → Bool} {w w' rest rest' : List α}

/-- The run at the head of a text ends before a character that is not of its class. -/
theorem takeWhile_append_of_stop (hw : ∀ c ∈ w, p c) (hr : ∀ c ∈ rest.head?, p c = false) :
    (w ++ rest).takeWhile p = w := by
  have hnil : rest.takeWhile p = [] := by
    cases rest with
    | nil => rfl
    | cons c s => simp [hr c rfl]
  rw [List.takeWhile_append_of_pos hw, hnil, List.append_nil]

/-- Behind the run at the head of a text stands what follows it. -/
theorem dropWhile_append_of_stop (hw : ∀ c ∈ w, p c) (hr : ∀ c ∈ rest.head?, p c = false) :
    (w ++ rest).dropWhile p = rest := by
  rw [List.dropWhile_append_of_pos hw]
  cases rest with
  | nil => rfl
  | cons c s => simp [hr c rfl]

/-- A text falls in one way into a run and what follows it. -/
theorem append_inj_of_stop (hw : ∀ c ∈ w, p c) (hr : ∀ c ∈ rest.head?, p c = false)
    (hw' : ∀ c ∈ w', p c) (hr' : ∀ c ∈ rest'.head?, p c = false) (h : w ++ rest = w' ++ rest') :
    w = w' ∧ rest = rest' := by
  constructor
  · rw [← takeWhile_append_of_stop hw hr, h, takeWhile_append_of_stop hw' hr']
  · rw [← dropWhile_append_of_stop hw hr, h, dropWhile_append_of_stop hw' hr']

/-! ## Trimming -/

/-- A space is blank. -/
theorem isBlank_space : isBlank ' ' := by
  decide

/-- The blanks at the head of a text are those of its beginning, unless that is blank. -/
theorem trimStart_append {s : List Char} (h : ∃ c ∈ s, isBlank c = false) (t : List Char) :
    trimStart (s ++ t) = trimStart s ++ t := by
  obtain ⟨c, hc, hblank⟩ := h
  rw [trimStart, List.dropWhile_append, if_neg]
  · rfl
  · rw [List.isEmpty_iff, List.dropWhile_eq_nil_iff]
    intro hall
    rw [hall c hc] at hblank
    cases hblank

/-- Trimming the end of a text takes nothing but blanks away. -/
theorem exists_of_trimEnd (s : List Char) : ∃ b, (∀ c ∈ b, isBlank c) ∧ s = trimEnd s ++ b := by
  refine ⟨(s.reverse.takeWhile isBlank).reverse, fun c hc => ?_, ?_⟩
  · exact List.mem_takeWhile_imp (List.mem_reverse.1 hc)
  · rw [trimEnd, ← List.reverse_append, List.takeWhile_append_dropWhile, List.reverse_reverse]

/-- A text of which trimming leaves nothing is blank. -/
theorem isBlank_of_trim_eq_nil {s : List Char} (h : trim s = []) : ∀ c ∈ s, isBlank c := by
  obtain ⟨b, hb, hs⟩ := exists_of_trimEnd (trimStart s)
  rw [← trim, h, List.nil_append] at hs
  intro c hc
  rw [← List.takeWhile_append_dropWhile (p := isBlank) (l := s), List.mem_append] at hc
  rcases hc with hc | hc
  · exact List.mem_takeWhile_imp hc
  · exact hb c (hs ▸ hc)

/-- A text that begins and ends with characters that are not blank. -/
structure Tight (s : List Char) : Prop where
  first : ∃ c ∈ s.head?, isBlank c = false
  last : ∃ c ∈ s.getLast?, isBlank c = false

namespace Tight

variable {s t : List Char}

/-- A tight text has a character. -/
theorem ne_nil (hs : Tight s) : s ≠ [] := by
  rintro rfl
  obtain ⟨c, hc, -⟩ := hs.first
  cases hc

/-- Tight texts at both ends make a text tight. -/
theorem between (hs : Tight s) (m : List Char) (ht : Tight t) : Tight (s ++ (m ++ t)) := by
  obtain ⟨c, hc, hcb⟩ := hs.first
  obtain ⟨d, hd, hdb⟩ := ht.last
  refine ⟨⟨c, ?_, hcb⟩, ⟨d, ?_, hdb⟩⟩
  · rw [List.head?_append, Option.mem_def.1 hc]
    rfl
  · rw [List.getLast?_append, List.getLast?_append, Option.mem_def.1 hd]
    rfl

/-- A tight text is tight in reverse. -/
theorem reverse (hs : Tight s) : Tight s.reverse :=
  ⟨by simpa using hs.last, by simpa using hs.first⟩

/-- A tight text begins with a character that is not blank, whatever follows. -/
theorem head?_append (hs : Tight s) (b : List Char) :
    ∀ c ∈ (s ++ b).head?, isBlank c = false := by
  obtain ⟨c, hc, hcb⟩ := hs.first
  rw [List.head?_append, Option.mem_def.1 hc]
  rintro d ⟨⟩
  exact hcb

/-- Blanks in front of a tight text are dropped. -/
theorem dropWhile_padded (hs : Tight s) {a : List Char} (ha : ∀ c ∈ a, isBlank c) (b : List Char) :
    (a ++ (s ++ b)).dropWhile isBlank = s ++ b :=
  dropWhile_append_of_stop ha (hs.head?_append b)

/-- Trimming takes away the blanks around a text. -/
theorem trim_padded (hs : Tight s) {a b : List Char} (ha : ∀ c ∈ a, isBlank c)
    (hb : ∀ c ∈ b, isBlank c) : trim (a ++ (s ++ b)) = s := by
  have hb' : ∀ c ∈ b.reverse, isBlank c := fun c hc => hb c (List.mem_reverse.1 hc)
  have hback := hs.reverse.dropWhile_padded hb' []
  rw [trim, trimStart, hs.dropWhile_padded ha, trimEnd, List.reverse_append]
  rw [List.append_nil] at hback
  rw [hback, List.reverse_reverse]

/-- Trimming the end of a text leaves a part of it that does not end with a blank. -/
theorem trimEnd_append (hs : Tight s) (rest : List Char) :
    trimEnd (s ++ rest) = s ++ trimEnd rest := by
  have hself := hs.reverse.dropWhile_padded (List.forall_mem_nil _) []
  rw [List.nil_append, List.append_nil] at hself
  rw [trimEnd, List.reverse_append, List.dropWhile_append]
  split
  · next hblank =>
    rw [hself, trimEnd, List.isEmpty_iff.1 hblank, List.reverse_reverse, List.reverse_nil,
      List.append_nil]
  · rw [List.reverse_append, List.reverse_reverse, trimEnd]

/-- A tight text is trimmed already. -/
theorem trim_eq (hs : Tight s) : trim s = s := by
  simpa using hs.trim_padded (List.forall_mem_nil _) (List.forall_mem_nil _)

/-- A space in front of a tight text is trimmed. -/
theorem trim_space (hs : Tight s) : trim (' ' :: s) = s := by
  simpa using hs.trim_padded (List.forall_mem_singleton.2 isBlank_space) (List.forall_mem_nil _)

end Tight

end SchemaDrift.Text
