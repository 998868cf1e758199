import SchemaDrift.Proofs.Migration.Body

/-!
# References around a literal

Positions before a literal and positions counted from its end stay what they are when the literal is
replaced by a longer or shorter one: whether an alteration covers them (`alike_covered_before`,
`alike_covered_behind`) and which table was defined last before them (`alike_tableBefore_before`,
`alike_tableBefore_behind`). So references outside alterations say the same (`alike_inlineFacts`),
with one restriction. The clause of a reference is searched for backwards without regard to
literals. Where the search comes to the literal it has to pass the old and the new one alike, and
the identifier that begins the clause has to end before them (`passesAlike`). Most searches end
before they come to the literal, and then nothing is asked of it.
-/

namespace SchemaDrift.Migration

open SchemaDrift.Text SchemaDrift.Scan Phrase
open SchemaDrift.Script (opens_createHead opens_alterHead opens_referencesClause)

variable {c e : Char} {n depth : Nat} {l l' r s v w x y : List Char} {ps qs us : List Piece}

/-! ## Clauses read backwards -/

/-- Whether a symbol may delimit a clause or change how deep in parentheses it stands. -/
def isDelimiter (c : Char) : Bool :=
  c == '(' || c == ')' || c == ',' || c == ';'

/-- The depth at which the search for the beginning of a clause goes on in front of a symbol, unless
the symbol ends it. -/
def stepBack? (depth : Nat) (c : Char) : Option Nat :=
  if c = ')' then some (depth + 1)
  else if c = '(' then if depth = 0 then none else some (depth - 1)
  else if (c = ',' ∨ c = ';') ∧ depth = 0 then none
  else some depth

/-- The depth at which the search goes on in front of a text, unless it ends in the text. -/
def depthBefore? (depth : Nat) (x : List Char) : Option Nat :=
  x.reverse.foldlM stepBack? depth

/-- Where the step backwards ends the search, the clause begins. -/
theorem clauseBackwards_of_stepBack?_eq_none (h : stepBack? depth c = none) (s : List Char) :
    clauseBackwards depth (c :: s) = [] := by
  rw [stepBack?] at h
  rw [clauseBackwards.eq_def]
  split at h
  · cases h
  · next hclose =>
    split at h
    · next hopen =>
      split at h
      · next hzero => simp only [if_neg hclose, if_pos hopen, hzero]
      · cases h
    · next hopen =>
      split at h
      · next hend => simp only [if_neg hclose, if_neg hopen, if_pos hend]
      · cases h

/-- Where the step backwards goes on, the symbol belongs to the clause. -/
theorem clauseBackwards_of_stepBack? (h : stepBack? depth c = some n) (s : List Char) :
    clauseBackwards depth (c :: s) = c :: clauseBackwards n s := by
  rw [stepBack?] at h
  rw [clauseBackwards.eq_def]
  split at h
  · next hclose =>
    obtain rfl := Option.some.inj h
    simp only [if_pos hclose]
  · next hclose =>
    split at h
    · next hopen =>
      cases depth with
      | zero => cases h
      | succ depth =>
        obtain rfl := Option.some.inj h
        simp only [if_neg hclose, if_pos hopen, Nat.add_sub_cancel]
    · next hopen =>
      split at h
      · cases h
      · next hend =>
        obtain rfl := Option.some.inj h
        simp only [if_neg hclose, if_neg hopen, if_neg hend]

/-- The search ends at a symbol, whatever stands before it, or goes on before it. -/
theorem clauseBackwards_step (depth : Nat) (c : Char) :
    (∀ s, clauseBackwards depth (c :: s) = []) ∨
      ∃ n, ∀ s, clauseBackwards depth (c :: s) = c :: clauseBackwards n s := by
  cases h : stepBack? depth c with
  | none => exact .inl (clauseBackwards_of_stepBack?_eq_none h)
  | some n => exact .inr ⟨n, clauseBackwards_of_stepBack? h⟩

/-- A symbol that delimits nothing does not change the depth. -/
theorem stepBack?_of_not_delimiter (hc : isDelimiter c = false) (depth : Nat) :
    stepBack? depth c = some depth := by
  simp only [isDelimiter, Bool.or_eq_false_iff, beq_eq_false_iff_ne] at hc
  simp [stepBack?, hc]

/-- A search that goes on before a text takes the text into the clause. -/
theorem clauseBackwards_of_depthBefore? (h : depthBefore? depth x = some n) (s : List Char) :
    clauseBackwards depth (x.reverse ++ s) = x.reverse ++ clauseBackwards n s := by
  rw [depthBefore?] at h
  generalize x.reverse = t at h ⊢
  induction t generalizing depth with
  | nil =>
    obtain rfl := Option.some.inj h
    rfl
  | cons c t ih =>
    rw [List.foldlM_cons] at h
    obtain ⟨k, hk, hrest⟩ := Option.bind_eq_some_iff.1 h
    rw [List.cons_append, clauseBackwards_of_stepBack? hk, ih hrest, List.cons_append]

/-- Symbols that are no delimiters leave the depth as it is. -/
theorem depthBefore?_of_not_delimiter (hx : x.any isDelimiter = false) (depth : Nat) :
    depthBefore? depth x = some depth := by
  rw [← List.any_reverse] at hx
  rw [depthBefore?]
  generalize x.reverse = t at hx ⊢
  induction t with
  | nil => rfl
  | cons c t ih =>
    rw [List.any_cons, Bool.or_eq_false_iff] at hx
    rw [List.foldlM_cons, stepBack?_of_not_delimiter hx.1]
    exact ih hx.2

/-! ## Identifiers before a literal -/

/-- Whether the identifier that a text begins with, if it begins with one, ends before a literal
that follows the text. A quoted identifier has to be closed, and a plain one may not go on into a
dollar quote. -/
def endsBeforeLiteral (quote? : Option Char) (v : List Char) : Bool :=
  match trimStart v with
  | [] => true
  | c :: s =>
    if c = '"' then s.contains '"'
    else !(isNameStart c && s.all isNameChar && decide (quote? = some '$'))

/-- Whether the search for the clause of a reference does the same with two literals, given the text
before them and the text between them and the reference. It may end before it comes to them. Else it
leaves both at the same depth, and the identifier that begins the clause ends before them. -/
def passesAlike (front l l' between : List Char) : Bool :=
  match depthBefore? 0 between with
  | none => true
  | some depth =>
    match depthBefore? depth l with
    | none => false
    | some outer =>
      decide (depthBefore? depth l' = some outer) &&
        endsBeforeLiteral l.head? (clauseBackwards outer front.reverse).reverse

/-- The references behind a literal that no alteration covers find their clauses as they do behind
another literal in its place. -/
def Passed (ps : List Piece) (y l m : List Char) : Prop :=
  ∀ o ∈ occurrences (atWordStart referencesClause) y,
    covered (alterSpans (ps.flatMap Piece.text ++ (l ++ y)))
        (o.start + ((ps.flatMap Piece.text).length + l.length)) = false →
      passesAlike (ps.flatMap Piece.text) l m (y.take o.start)

variable (he : e = '\'' ∨ e = '$') (hps : Clear e ps)

include he hps

/-! ## Positions around a literal -/

/-- The references of a text, those before the literal and those behind it. -/
theorem references_around (y : List Char) : ∃ front : List (Found Reference),
    (∀ o ∈ front, o.Within 0 ps) ∧ ∀ l, Stands e ps y l →
      occurrences (atWordStart referencesClause) (ps.flatMap Piece.text ++ (l ++ y)) =
        front.map (Found.occurrence (l ++ y)) ++ (occurrences (atWordStart referencesClause) y).map
          (shifted ((ps.flatMap Piece.text).length + l.length)) := by
  obtain ⟨front, hwithin, hfound⟩ :=
    occurrences_around opens_referencesClause (steady_referencesClause he) he hps
  exact ⟨front, hwithin, fun l hl => hfound l y hl.first (hl.last he) hl.quotes_eq.2.2.1⟩

end SchemaDrift.Migration
