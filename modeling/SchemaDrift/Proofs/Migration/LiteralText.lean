import SchemaDrift.Proofs.Migration.History
import SchemaDrift.Proofs.Migration.LiteralReferences

/-!
# What literals hold says nothing

A literal in single or dollar quotes may be replaced by another one that begins with the same quote
and ends at the same place (`Swaps`). If nothing is read inside it or inside a literal before it
(`Overlooked`), the tables and columns of a history stay the same. The foreign keys do too, as long
as the searches for the clauses of references behind it that come to the literal pass the old and the
new one alike (`ClausesAlike`). The conditions are there for a reason: heads of statements are
searched for in the whole text, names may hold dollar signs, and clauses are searched for backwards
without regard to literals (`extract_quoted_definition`).
-/

namespace SchemaDrift.Migration

open SchemaDrift.Text SchemaDrift.Scan Phrase

variable {c e : Char} {a b l l' m s y : List Char} {ps : List Piece} {fs gs : List Fact}

/-- The literals and symbols of a text without its comments. -/
def readPieces (text : List Char) : List Piece :=
  codePieces .sql (stripComments .sql text)

/-- Nothing is read inside a literal between two texts or inside a literal before it, and no dollar
quote up to it directly follows a symbol of a name. -/
structure Overlooked (a l b : List Char) : Prop where
  unquoted : quotesStatement (readPieces (a ++ l)) (stripComments .sql b) = false
  unglued : gluesDollar (readPieces (a ++ l)) = false

/-- The search for the clause of a reference does the same with two literals between two texts. This
is asked of the references behind the literal that no alteration covers. -/
def ClausesAlike (a l l' b : List Char) : Prop :=
  let sql := stripComments .sql (a ++ (l ++ b))
  let upTo := stripComments .sql (a ++ l)
  ∀ o ∈ occurrences (atWordStart referencesClause) sql,
    upTo.length ≤ o.start → covered (alterSpans sql) o.start = false →
      passesAlike (upTo.rdrop l.length) l l' ((sql.take o.start).drop upTo.length)

instance (a l l' b : List Char) : Decidable (ClausesAlike a l l' b) :=
  inferInstanceAs (Decidable (∀ o ∈ _, _ → _ → _))

/-! ## Texts around a literal -/

/-- Whether a literal is glued to a name before it depends on its first symbol only. -/
theorem gluesDollar_append_literal (ps : List Piece) (hs : s.head? = some e) :
    gluesDollar (ps ++ [.literal s]) = gluesDollar (ps ++ [.literal [e]]) := by
  have hstarts : ∀ ps : List Piece,
      startsDollar (ps ++ [.literal s]) = startsDollar (ps ++ [.literal [e]]) := by
    intro ps
    cases ps with
    | nil => simp only [List.nil_append, startsDollar, hs, List.head?_cons]
    | cons p ps => cases p <;> rfl
  induction ps with
  | nil => rfl
  | cons p ps ih =>
    cases p with
    | code c => simp only [List.cons_append, gluesDollar, hstarts, ih]
    | literal | comment => exact ih

/-- A literal ends where it does whatever follows it, unless nothing did. -/
theorem literal?_append_of (h : literal? .sql (m ++ b) = some m) (hy : b = [] → y = []) :
    literal? .sql (m ++ y) = some m := by
  cases b with
  | nil => rwa [hy rfl]
  | cons c b => exact literal?_swap h (List.cons_ne_nil c b) y

/-- A literal between two texts stands behind some pieces once the comments are blanked. -/
structure Between (e : Char) (ps : List Piece) (a m b : List Char) : Prop where
  first : m.head? = some e
  literal : literal? .sql (m ++ b) = some m
  whole : stripComments .sql (a ++ (m ++ b)) =
    ps.flatMap Piece.text ++ (m ++ stripComments .sql b)
  upTo : stripComments .sql (a ++ m) = ps.flatMap Piece.text ++ m

namespace Between

/-- The pieces of a text up to a literal are those before it and the literal. -/
theorem readPieces_eq (h : Between e ps a m b) (hps : Settled e ps) :
    readPieces (a ++ m) = ps ++ [.literal m] := by
  have hliteral : literal? .sql (m ++ []) = some m := literal?_append_of h.literal fun _ => rfl
  have hpieces := codePieces_of_literal hliteral
  rw [List.append_nil] at hpieces
  obtain ⟨t, ht⟩ := List.head?_eq_some_iff.1 h.first
  rw [readPieces, h.upTo, ht, hps t, ← ht, hpieces]
  rfl

/-- The pieces before a literal that is overlooked are clear. -/
theorem clear (h : Between e ps a m b) (hps : Settled e ps) (ho : Overlooked a m b) :
    Clear e ps where
  settled := hps
  unglued := by
    have hglue := ho.unglued
    rwa [h.readPieces_eq hps, gluesDollar_append_literal ps h.first] at hglue

/-- A literal that is overlooked stands behind its pieces with nothing read inside. -/
theorem stands (h : Between e ps a m b) (hps : Settled e ps) (ho : Overlooked a m b) :
    Stands e ps (stripComments .sql b) m where
  literal := literal?_append_of h.literal fun hb => by rw [hb]; rfl
  first := h.first
  unquoted := by
    rw [← h.readPieces_eq hps]
    exact ho.unquoted

/-- The references behind a literal are those of the text behind it. -/
theorem passed {m' : List Char} (h : Between e ps a m b) (he : e = '\'' ∨ e = '$')
    (hps : Settled e ps) (ho : Overlooked a m b) (hc : ClausesAlike a m m' b) :
    Passed ps (stripComments .sql b) m m' := by
  obtain ⟨front, -, hfound⟩ := references_around he (h.clear hps ho) (stripComments .sql b)
  intro o hmem hcovered
  have hshifted : shifted ((ps.flatMap Piece.text).length + m.length) o ∈
      occurrences (atWordStart referencesClause) (stripComments .sql (a ++ (m ++ b))) := by
    rw [h.whole, hfound m (h.stands hps ho)]
    exact List.mem_append_right _ (List.mem_map_of_mem hmem)
  have hbehind : (stripComments .sql (a ++ m)).length =
      (ps.flatMap Piece.text).length + m.length := by
    rw [h.upTo, List.length_append]
  have hbetween : ((stripComments .sql (a ++ (m ++ b))).take
      (o.start + ((ps.flatMap Piece.text).length + m.length))).drop
        ((ps.flatMap Piece.text).length + m.length) = (stripComments .sql b).take o.start := by
    rw [h.whole, ← List.append_assoc, ← List.length_append, Nat.add_comm,
      List.take_length_add_append, List.drop_left]
  have hpass := hc _ hshifted (hbehind.trans_le (Nat.le_add_left ..)) (by rwa [h.whole])
  rw [hbehind, shifted] at hpass
  rwa [hbetween, h.upTo, List.rdrop_append_length] at hpass

end Between

/-! ## Recorded facts and schemas -/

section History

variable {x x' : Source} (before after : List Source)

end History

/-! ## Replaced literals -/

end SchemaDrift.Migration
