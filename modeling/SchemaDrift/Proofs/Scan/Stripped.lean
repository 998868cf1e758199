import SchemaDrift.Proofs.Scan.Layout
import SchemaDrift.Proofs.Scan.Settled

/-!
# The scan of a text without its comments

A text and the same text with its comments blanked are scanned side by side. Behind a symbol of code
the two texts agree up to the next comment, where the second has a space (`blanked_cases`), and a
space neither completes the mark of a comment nor goes on the tag of a dollar quote. So the second
text falls into the pieces of the first with code in place of the comments
(`allPieces_stripComments`): its literals are those of the first, at the same offsets
(`literalOffsets_asCode`), and blanking comments once more changes nothing.
-/

namespace SchemaDrift.Scan

variable {d : Dialect} {c : Char} {s : List Char} {p : Piece} {ps before after : List Piece}

/-! ## Pieces -/

/-- Neither a literal nor a comment begins at a symbol of code. -/
theorem eq_none_of_allPieces (h : allPieces d s = .code c :: ps) :
    literal? d s = none ∧ comment? d s = none := by
  obtain ⟨t, -, -, hc | ⟨hnone, -⟩⟩ := exists_of_pieces_eq_cons commentReader_spec h
  · obtain ⟨l, hl, -⟩ | ⟨k, hk, -⟩ := commentReader_cases hc
    · cases hl
    · cases hk
  · rwa [Option.or_eq_none_iff, Option.map_eq_none_iff, Option.map_eq_none_iff] at hnone

/-- A symbol of code stays one if the comments behind it are blanked. -/
theorem eq_none_of_blanked (hps : ∀ k, .comment k ∈ ps → ∃ t, comment? d t = some k)
    (hl : literal? d (c :: ps.flatMap Piece.text) = none)
    (hk : comment? d (c :: ps.flatMap Piece.text) = none) :
    literal? d (c :: ps.flatMap (Piece.blanked Char.utf8Size)) = none ∧
      comment? d (c :: ps.flatMap (Piece.blanked Char.utf8Size)) = none := by
  rcases blanked_cases hps with hsame | ⟨x, e, s, s', htext, hblanked⟩
  · rw [hsame]
    exact ⟨hl, hk⟩
  · rw [htext] at hl hk
    rw [hblanked]
    refine ⟨literal?_eq_none_swap rfl (fun h => absurd h (by decide)) hl s', ?_⟩
    cases x with
    | nil =>
      rw [List.nil_append, comment?_eq_none_iff_marks]
      cases d <;> simp [Dialect.lineMark]
    | cons b x => exact comment?_eq_none_iff_marks.2 (comment?_eq_none_iff_marks.1 hk)

/-- A literal is read the same if the comments behind it are blanked. -/
theorem literal?_of_blanked {l : List Char} (hne : ∀ p ∈ ps, p.text ≠ [])
    (h : literal? d (l ++ ps.flatMap Piece.text) = some l) :
    literal? d (l ++ ps.flatMap (Piece.blanked Char.utf8Size)) = some l := by
  cases ps with
  | nil => exact h
  | cons p ps =>
    have hbehind : (p :: ps).flatMap Piece.text ≠ [] := by
      rw [List.flatMap_cons]
      exact List.append_ne_nil_of_left_ne_nil (hne p List.mem_cons_self) _
    exact literal?_swap h hbehind _

/-- A piece of a text has a symbol. -/
theorem text_ne_nil_of_mem_allPieces (h : p ∈ allPieces d s) : p.text ≠ [] := by
  obtain ⟨before, after, hps⟩ := List.append_of_mem h
  have hp := pieces_of_append commentReader_spec hps
  obtain ⟨t, -, -, hread | ⟨-, c, rfl⟩⟩ := exists_of_pieces_eq_cons commentReader_spec hp
  · exact (commentReader_spec _ p hread).1
  · exact List.cons_ne_nil c []

/-- A text without its comments falls into the pieces of the text, with blanks for the comments. -/
theorem allPieces_stripComments (d : Dialect) (s : List Char) :
    allPieces d (stripComments d s) = (allPieces d s).flatMap Piece.asCode := by
  rw [stripComments, blankComments]
  generalize hps : allPieces d s = ps
  induction ps generalizing s with
  | nil => rfl
  | cons p ps ih =>
    obtain ⟨t, rfl, rfl, -⟩ := exists_of_pieces_eq_cons commentReader_spec hps
    have hrest := ih t rfl
    have htext := flatMap_text_allPieces (d := d) t
    rw [List.flatMap_cons, List.flatMap_cons, ← hrest]
    cases p with
    | code c =>
      obtain ⟨hl, hk⟩ := eq_none_of_allPieces hps
      rw [Piece.text, List.singleton_append, ← htext] at hl hk
      obtain ⟨hl, hk⟩ := eq_none_of_blanked (fun k => mem_allPieces_comment) hl hk
      exact allPieces_of_none hl hk
    | literal l =>
      obtain ⟨u, hu, -, hread | ⟨-, c, hc⟩⟩ := exists_of_pieces_eq_cons commentReader_spec hps
      · obtain ⟨l', hl, hread⟩ | ⟨k, hk, -⟩ := commentReader_cases hread
        · cases hl
          rw [Piece.text, ← htext] at hread
          exact allPieces_of_literal
            (literal?_of_blanked (fun p => text_ne_nil_of_mem_allPieces) hread)
        · cases hk
      · cases hc
    | comment k =>
      obtain ⟨u, hu⟩ := mem_allPieces_comment (d := d) (hps ▸ List.mem_cons_self)
      obtain ⟨w, hw, hblank⟩ := exists_blanked_comment hu
      rw [Piece.asCode, hw]
      exact allPieces_blanks (List.forall_mem_cons.2 ⟨.inl rfl, hblank⟩) _

/-! ## No comments -/

/-- A piece that is read as code holds no comment. -/
theorem comment_not_mem_asCode {k : List Char} : .comment k ∉ p.asCode := by
  intro h
  cases p with
  | code | literal => cases List.mem_singleton.1 h
  | comment =>
    obtain ⟨c, -, hc⟩ := List.mem_map.1 h
    cases hc

/-- Pieces without comments are shown as they are. -/
theorem blanked_eq_text (h : ∀ k, .comment k ∉ ps) :
    ps.flatMap (Piece.blanked Char.utf8Size) = ps.flatMap Piece.text := by
  refine List.flatMap_congr fun p hp => ?_
  cases p with
  | code | literal => rfl
  | comment k => exact absurd hp (h k)

/-- Blanking the comments of a text without comments changes nothing. -/
theorem stripComments_stripComments (d : Dialect) (s : List Char) :
    stripComments d (stripComments d s) = stripComments d s := by
  have hnone : ∀ k, .comment k ∉ (allPieces d s).flatMap Piece.asCode := by
    intro k hk
    obtain ⟨p, -, hp⟩ := List.mem_flatMap.1 hk
    exact comment_not_mem_asCode hp
  calc stripComments d (stripComments d s)
      = ((allPieces d s).flatMap Piece.asCode).flatMap (Piece.blanked Char.utf8Size) :=
        congrArg _ (allPieces_stripComments d s)
    _ = ((allPieces d s).flatMap Piece.asCode).flatMap Piece.text := blanked_eq_text hnone
    _ = stripComments d s := flatMap_text_asCode _

/-- Where no comment is found, a scan that knows of none finds the same pieces. -/
theorem codePieces_eq_allPieces (h : ∀ k, .comment k ∉ allPieces d s) :
    codePieces d s = allPieces d s := by
  generalize hps : allPieces d s = ps at h
  induction ps generalizing s with
  | nil =>
    have hnil := flatMap_text_allPieces (d := d) s
    rw [hps] at hnil
    rw [← hnil]
    rfl
  | cons p ps ih =>
    obtain ⟨t, rfl, ht, hp⟩ := exists_of_pieces_eq_cons commentReader_spec hps
    rw [← ih ht.symm fun k hk => h k (List.mem_cons_of_mem p hk)]
    rcases hp with hp | ⟨hp, c, rfl⟩
    · obtain ⟨l, rfl, hl⟩ | ⟨k, rfl, -⟩ := commentReader_cases hp
      · exact codePieces_of_literal hl
      · exact absurd List.mem_cons_self (h k)
    · exact codePieces_of_none (Option.map_eq_none_iff.1 (Option.or_eq_none_iff.1 hp).1)

/-! ## Literals and their offsets -/

/-- The literals among some pieces, each with the offset where it begins. -/
def literalOffsets : (offset : Nat) → List Piece → List (Nat × List Char)
  | _, [] => []
  | offset, .literal l :: ps => (offset, l) :: literalOffsets (offset + l.length) ps
  | offset, p :: ps => literalOffsets (offset + p.text.length) ps

/-- The literals of two lists of pieces are those of the first and, further on, those of the
second. -/
theorem literalOffsets_append (i : Nat) (ps qs : List Piece) :
    literalOffsets i (ps ++ qs) =
      literalOffsets i ps ++ literalOffsets (i + (ps.flatMap Piece.text).length) qs := by
  induction ps generalizing i with
  | nil => rfl
  | cons p ps ih =>
    rw [List.flatMap_cons, List.length_append, ← Nat.add_assoc]
    cases p with
    | literal l => exact congrArg ((i, l) :: ·) (ih (i + l.length))
    | code c => exact ih (i + 1)
    | comment k => exact ih (i + k.length)

/-- Symbols of code are no literals. -/
theorem literalOffsets_codes (i : Nat) (x : List Char) : literalOffsets i (x.map .code) = [] := by
  induction x generalizing i with
  | nil => rfl
  | cons c x ih => exact ih (i + 1)

/-- A literal among pieces stands behind the text of those before it. -/
theorem mem_literalOffsets (i : Nat) (before after : List Piece) (l : List Char) :
    (i + (before.flatMap Piece.text).length, l) ∈
      literalOffsets i (before ++ .literal l :: after) := by
  rw [literalOffsets_append]
  exact List.mem_append_right _ List.mem_cons_self

/-- The bytes of symbols of code are symbols of code. -/
theorem inBytes_codes (x : List Char) :
    (x.map Piece.code).flatMap Piece.inBytes = (symbols x).map .code := by
  induction x with
  | nil => rfl
  | cons c x ih =>
    rw [List.map_cons, List.flatMap_cons, ih, symbols_cons c x, List.map_append]
    rfl

/-- A blanked comment takes as many bytes as the comment, and no literal begins in either. -/
theorem literalOffsets_inBytes_asCode (i : Nat) (p : Piece) :
    literalOffsets i (p.asCode.flatMap Piece.inBytes) = literalOffsets i p.inBytes ∧
      ((p.asCode.flatMap Piece.inBytes).flatMap Piece.text).length =
        (p.inBytes.flatMap Piece.text).length := by
  cases p with
  | code c => exact ⟨by simp [Piece.asCode], by simp [Piece.asCode]⟩
  | literal l => exact ⟨rfl, rfl⟩
  | comment k =>
    have hlength : (symbols ((Piece.comment k).blanked Char.utf8Size)).length =
        (symbols k).length := by
      rw [← blanked_symbols, blanked_eq_map, List.length_map]
      rfl
    rw [Piece.asCode, inBytes_codes, literalOffsets_codes]
    refine ⟨rfl, ?_⟩
    rw [List.flatMap_map, Piece.inBytes, List.flatMap_singleton, Piece.text, ← hlength]
    exact congrArg List.length (List.flatMap_singleton' _)

/-- Blanked comments move no literal. -/
theorem literalOffsets_asCode (i : Nat) (ps : List Piece) :
    literalOffsets i ((ps.flatMap Piece.asCode).flatMap Piece.inBytes) =
      literalOffsets i (ps.flatMap Piece.inBytes) := by
  induction ps generalizing i with
  | nil => rfl
  | cons p ps ih =>
    obtain ⟨hliterals, hlength⟩ := literalOffsets_inBytes_asCode i p
    rw [List.flatMap_cons, List.flatMap_append, List.flatMap_cons, literalOffsets_append,
      literalOffsets_append, hliterals, hlength, ih]

/-! ## Stripped texts -/

/-- A text without its comments. -/
def stripped (d : Dialect) (text : String) : String :=
  String.ofList (stripComments d text.toList)

/-- The pieces of a text without comments are those of the text, with its comments read as code. -/
theorem allPieces_stripped (d : Dialect) (text : String) :
    allPieces d (byteSymbols (stripped d text)) =
      ((allPieces d text.toList).flatMap Piece.asCode).flatMap Piece.inBytes := by
  rw [byteSymbols_eq, stripped, String.toList_ofList, allPieces_symbols, allPieces_stripComments]

/-- A text without comments has no comment among its pieces. -/
theorem comment_not_mem_stripped (d : Dialect) (text : String) (k : List Char) :
    .comment k ∉ allPieces d (byteSymbols (stripped d text)) := by
  rw [allPieces_stripped]
  intro h
  obtain ⟨q, hq, hk⟩ := List.mem_flatMap.1 h
  obtain ⟨p, -, hp⟩ := List.mem_flatMap.1 hq
  cases q with
  | code c =>
    obtain ⟨b, -, hb⟩ := List.mem_map.1 hk
    cases hb
  | literal l => cases List.mem_singleton.1 hk
  | comment => exact comment_not_mem_asCode hp

/-- No mark of a comment stands outside the literals of a text in which no comment is found. -/
theorem marks_of_outside {i : Nat} (hnone : ∀ k, .comment k ∉ allPieces d s)
    (hi : ∀ x ∈ literalOffsets 0 (allPieces d s), i < x.1 ∨ x.1 + x.2.length ≤ i) :
    ¬ d.lineMark <+: s.drop i ∧ ¬ ['/', '*'] <+: s.drop i := by
  have htext := flatMap_text_allPieces (d := d) s
  rcases Nat.lt_or_ge i s.length with hlt | hge
  · rw [← htext] at hlt
    obtain ⟨before, p, after, j, hps, hj, hsum⟩ := exists_piece_at hlt
    cases p with
    | code c =>
      obtain rfl : j = 0 := by simpa [Piece.text] using hj
      have hdrop : s.drop i = (Piece.code c :: after).flatMap Piece.text := by
        rw [← htext, hps, List.flatMap_append, hsum, Nat.add_zero, List.drop_left]
      have hcode := pieces_of_append commentReader_spec hps
      obtain ⟨-, hk⟩ := eq_none_of_allPieces hcode
      rw [← hdrop, comment?] at hk
      simp only [← List.isPrefixOf_iff_prefix]
      split at hk
      · cases hk
      · split at hk
        · cases hk
        · exact ⟨‹_›, ‹_›⟩
    | literal l =>
      have hl := hi _ (hps ▸ mem_literalOffsets 0 before after l)
      rw [Piece.text] at hj
      simp only at hl
      omega
    | comment k => exact absurd (hps ▸ List.mem_append_right _ List.mem_cons_self) (hnone k)
  · rw [List.drop_eq_nil_of_le hge]
    cases d <;> simp [Dialect.lineMark]

/-- Blanking comments leaves none. Done again, it changes nothing, character by character or byte by
byte. A scan of the bytes that are left, whether it knows of comments or not, finds the literals
that stood outside comments, at the same offsets and with the same bytes, and outside them no mark
of a comment. -/
theorem stripComments_idempotent (d : Dialect) (text : String) :
    stripComments d (stripComments d text.toList) = stripComments d text.toList ∧
    stripped d (stripped d text) = stripped d text ∧
    blankedBytes d (stripped d text) = byteSymbols (stripped d text) ∧
    literalOffsets 0 (allPieces d (byteSymbols (stripped d text))) =
      literalOffsets 0 (allPieces d (byteSymbols text)) ∧
    codePieces d (byteSymbols (stripped d text)) = allPieces d (byteSymbols (stripped d text)) ∧
    ∀ i, (∀ x ∈ literalOffsets 0 (allPieces d (byteSymbols text)),
        i < x.1 ∨ x.1 + x.2.length ≤ i) →
      ¬ d.lineMark <+: (byteSymbols (stripped d text)).drop i ∧
        ¬ ['/', '*'] <+: (byteSymbols (stripped d text)).drop i := by
  have htwice := stripComments_stripComments d text.toList
  have hstripped : stripped d (stripped d text) = stripped d text := by
    rw [stripped, stripped, String.toList_ofList, htwice]
  have hbytes : blankedBytes d (stripped d text) = byteSymbols (stripped d text) := by
    rw [blankedBytes_eq, byteSymbols_eq, stripped, String.toList_ofList, htwice]
  have hliterals : literalOffsets 0 (allPieces d (byteSymbols (stripped d text))) =
      literalOffsets 0 (allPieces d (byteSymbols text)) := by
    rw [allPieces_stripped, literalOffsets_asCode, byteSymbols_eq, allPieces_symbols]
  have hnone := comment_not_mem_stripped d text
  refine ⟨htwice, hstripped, hbytes, hliterals, codePieces_eq_allPieces hnone, fun i hi => ?_⟩
  rw [← hliterals] at hi
  exact marks_of_outside hnone hi

/-- The literal that holds a mark is found again, and behind it no mark is left. -/
theorem stripped_commentedText :
    literalOffsets 0 (allPieces .sql (byteSymbols commentedText)) =
        [(0, byteSymbols "'--é'")] ∧
      literalOffsets 0 (allPieces .sql (byteSymbols (stripped .sql commentedText))) =
        [(0, byteSymbols "'--é'")] ∧
      ∀ i, 6 ≤ i → ¬ ['-', '-'] <+: (byteSymbols (stripped .sql commentedText)).drop i ∧
        ¬ ['/', '*'] <+: (byteSymbols (stripped .sql commentedText)).drop i := by
  obtain ⟨-, -, -, hliterals, -, hmarks⟩ := stripComments_idempotent .sql commentedText
  have hoffsets : literalOffsets 0 (allPieces .sql (byteSymbols commentedText)) =
      [(0, byteSymbols "'--é'")] := by
    decide +kernel
  have hsize : (byteSymbols "'--é'").length = 6 := by decide +kernel
  refine ⟨hoffsets, hliterals.trans hoffsets, fun i hi => hmarks i fun x hx => ?_⟩
  rw [hoffsets, List.mem_singleton] at hx
  rw [hx, hsize]
  exact .inr (by omega)

end SchemaDrift.Scan
