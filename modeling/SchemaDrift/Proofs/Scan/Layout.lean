import SchemaDrift.Proofs.Scan.Encoded

/-!
# The layout of a text without its comments

Each byte of a text stays where it is when comments are blanked byte by byte: as it was in code and
literals, and in a comment as a space unless it ends a line (`getElem?_blankComments`). What comes
out are the bytes of the text whose comments are blanked character by character
(`blankedBytes_eq`), so no part of a character is ever left behind.
-/

namespace SchemaDrift.Scan

variable {d : Dialect} {s : List Char} {p : Piece} {ps before after : List Piece} {i : Nat}

/-! ## Byte by byte -/

/-- How a symbol of a piece is shown when comments are blanked. -/
def Piece.shown : Piece → Char → Char
  | comment _, c => if c = '\n' then c else ' '
  | _, c => c

/-- Blanking a piece with a space for each symbol shows every symbol by itself. -/
theorem blanked_eq_map (p : Piece) : p.blanked (fun _ => 1) = p.text.map p.shown := by
  cases p with
  | code c => rfl
  | literal l => exact (List.map_id l).symm
  | comment k =>
    rw [Piece.blanked, Piece.text, List.map_eq_flatMap]
    congr 1
    funext c
    rw [Piece.shown]
    split <;> rfl

/-- Blanking with a space for each symbol keeps the length of pieces. -/
theorem length_blanked (ps : List Piece) :
    (ps.flatMap (Piece.blanked fun _ => 1)).length = (ps.flatMap Piece.text).length := by
  induction ps with
  | nil => rfl
  | cons p ps ih =>
    rw [List.flatMap_cons, List.flatMap_cons, List.length_append, List.length_append, ih,
      blanked_eq_map, List.length_map]

/-- A symbol of a piece is shown at its offset in the text. -/
theorem getElem?_blankComments (h : allPieces d s = before ++ p :: after)
    (hi : i < p.text.length) :
    s[(before.flatMap Piece.text).length + i]? = some p.text[i] ∧
      (blankComments (fun _ => 1) d s)[(before.flatMap Piece.text).length + i]? =
        some (p.shown p.text[i]) := by
  have hle : ∀ n, n ≤ n + i := fun n => Nat.le_add_right n i
  have hs := flatMap_text_allPieces (d := d) s
  rw [h, List.flatMap_append, List.flatMap_cons] at hs
  constructor
  · rw [← hs, List.getElem?_append_right (hle _), Nat.add_sub_cancel_left,
      List.getElem?_append_left hi, List.getElem?_eq_getElem hi]
  · rw [blankComments, h, List.flatMap_append, List.flatMap_cons, blanked_eq_map,
      List.getElem?_append_right (by rw [length_blanked]; exact hle _), length_blanked,
      Nat.add_sub_cancel_left, List.getElem?_append_left (by rwa [List.length_map]),
      List.getElem?_map, List.getElem?_eq_getElem hi, Option.map_some]

/-- Every symbol of a text belongs to one of its pieces. -/
theorem exists_piece_at (hi : i < (ps.flatMap Piece.text).length) :
    ∃ before p after j, ps = before ++ p :: after ∧ j < p.text.length ∧
      i = (before.flatMap Piece.text).length + j := by
  induction ps generalizing i with
  | nil => cases hi
  | cons p ps ih =>
    rw [List.flatMap_cons, List.length_append] at hi
    rcases Nat.lt_or_ge i p.text.length with hlt | hge
    · exact ⟨[], p, ps, i, rfl, hlt, (Nat.zero_add i).symm⟩
    · obtain ⟨before, q, after, j, rfl, hj, hsum⟩ := ih (i := i - p.text.length) (by omega)
      refine ⟨p :: before, q, after, j, rfl, hj, ?_⟩
      rw [List.flatMap_cons, List.length_append]
      omega

/-- A symbol is kept, or it ends no line and becomes a space. -/
theorem getElem?_blankComments_cases {b : Char} (h : s[i]? = some b) :
    (blankComments (fun _ => 1) d s)[i]? = some b ∨
      (blankComments (fun _ => 1) d s)[i]? = some ' ' ∧ b ≠ '\n' := by
  have hlt : i < ((allPieces d s).flatMap Piece.text).length := by
    rw [flatMap_text_allPieces]
    exact (List.getElem?_eq_some_iff.1 h).1
  obtain ⟨before, p, after, j, hps, hj, rfl⟩ := exists_piece_at hlt
  obtain ⟨hsymbol, hshown⟩ := getElem?_blankComments hps hj
  rw [← Option.some.inj (h.symm.trans hsymbol)] at hshown
  rw [hshown]
  cases p with
  | code | literal => exact .inl rfl
  | comment k =>
    rw [Piece.shown]
    split
    · exact .inl rfl
    · next hne => exact .inr ⟨rfl, hne⟩

/-- Blanking with a space for each symbol keeps the length of a text. -/
theorem length_blankComments (d : Dialect) (s : List Char) :
    (blankComments (fun _ => 1) d s).length = s.length := by
  rw [blankComments, length_blanked, flatMap_text_allPieces]

/-! ## Whole characters -/

/-- The bytes of a text with those of its comments blanked, one by one. -/
def blankedBytes (d : Dialect) (text : String) : List Char :=
  blankComments (fun _ => 1) d (byteSymbols text)

/-- The bytes of a comment, blanked one by one, are the bytes of the blanked comment. -/
theorem blanked_symbols (k : List Char) : (Piece.comment (symbols k)).blanked (fun _ => 1) =
    symbols ((Piece.comment k).blanked Char.utf8Size) := by
  rw [blanked_eq_map, Piece.text, Piece.blanked]
  induction k with
  | nil => rfl
  | cons c k ih =>
    have hchar : (symbols [c]).map (Piece.comment (symbols k)).shown =
        symbols (if c = '\n' then [c] else List.replicate c.utf8Size ' ') := by
      split
      · next hc =>
        rw [hc]
        rfl
      · next hc =>
        have hbytes : ∀ b ∈ symbols [c], (Piece.comment (symbols k)).shown b = ' ' := by
          intro b hb
          rw [Piece.shown, if_neg]
          rintro rfl
          exact hc (eq_of_mem_symbols (by decide) hb)
        have hspaces : symbols (List.replicate c.utf8Size ' ') = List.replicate c.utf8Size ' ' :=
          symbols_eq_self fun e he => by rw [List.eq_of_mem_replicate he]; decide
        rw [List.map_congr_left hbytes, List.map_const', length_symbols, hspaces]
    rw [List.flatMap_cons, symbols_append, ← hchar, ← ih, symbols_cons, List.map_append]
    rfl

/-- Blanking the bytes of a text gives the bytes of the text without its comments. -/
theorem blankedBytes_eq (d : Dialect) (text : String) :
    blankedBytes d text = symbols (stripComments d text.toList) := by
  rw [blankedBytes, byteSymbols_eq, blankComments, stripComments, blankComments, allPieces_symbols]
  induction allPieces d text.toList with
  | nil => rfl
  | cons p ps ih =>
    rw [List.flatMap_cons, List.flatMap_append, ih, List.flatMap_cons, symbols_append]
    congr 1
    cases p with
    | code c =>
      rw [Piece.inBytes, List.flatMap_map]
      exact List.flatMap_singleton' _
    | literal l => exact List.append_nil _
    | comment k => exact (List.append_nil _).trans (blanked_symbols k)

/-- A text without its comments has the layout of the text. Blanking them byte by byte gives its
bytes, which are as many as before: each is the byte at its offset or a space in place of one that
ends no line, and lines end at the same offsets. Literals stay as they are, and nothing but blanks
is left of comments. -/
theorem stripComments_layout (d : Dialect) (text : String) :
    ofByteSymbols? (blankedBytes d text) = some (String.ofList (stripComments d text.toList)) ∧
    byteSymbols (String.ofList (stripComments d text.toList)) = blankedBytes d text ∧
    (blankedBytes d text).length = (byteSymbols text).length ∧
    (∀ (i : Nat) b, (byteSymbols text)[i]? = some b → (blankedBytes d text)[i]? = some b ∨
      (blankedBytes d text)[i]? = some ' ' ∧ b ≠ '\n') ∧
    (∀ i : Nat, (blankedBytes d text)[i]? = some '\n' ↔ (byteSymbols text)[i]? = some '\n') ∧
    (∀ before l after, allPieces d (byteSymbols text) = before ++ .literal l :: after →
      ∀ i < l.length, (blankedBytes d text)[(before.flatMap Piece.text).length + i]? =
        (byteSymbols text)[(before.flatMap Piece.text).length + i]?) ∧
    ∀ before k after, allPieces d (byteSymbols text) = before ++ .comment k :: after →
      ∀ i < k.length,
        (blankedBytes d text)[(before.flatMap Piece.text).length + i]? = some ' ' ∨
        (blankedBytes d text)[(before.flatMap Piece.text).length + i]? = some '\n' := by
  have hbytes := blankedBytes_eq d text
  have hlength := length_blankComments d (byteSymbols text)
  have hkept : ∀ (i : Nat) b, (byteSymbols text)[i]? = some b →
      (blankedBytes d text)[i]? = some b ∨ (blankedBytes d text)[i]? = some ' ' ∧ b ≠ '\n' :=
    fun i b => getElem?_blankComments_cases
  refine ⟨?_, ?_, hlength, hkept, fun i => ⟨fun hi => ?_, fun hi => ?_⟩, ?_, ?_⟩
  · rw [hbytes, ofByteSymbols?_symbols]
  · rw [hbytes, byteSymbols_eq, String.toList_ofList]
  · have hlt : i < (byteSymbols text).length := hlength ▸ (List.getElem?_eq_some_iff.1 hi).1
    have hb := List.getElem?_eq_getElem hlt
    rcases hkept i _ hb with hsame | ⟨hspace, -⟩
    · rw [hb, ← hsame, hi]
    · rw [hspace] at hi
      cases hi
  · rcases hkept i '\n' hi with hsame | ⟨-, hne⟩
    · exact hsame
    · exact absurd rfl hne
  · intro before l after hps i hi
    obtain ⟨hsymbol, hshown⟩ := getElem?_blankComments hps hi
    exact hshown.trans hsymbol.symm
  · intro before k after hps i hi
    rw [blankedBytes, (getElem?_blankComments hps hi).2, Piece.shown]
    split
    · next hline => exact .inr (congrArg some hline)
    · exact .inl rfl

/-- A text with a mark of a comment in a literal, and with a quote in a comment. -/
def commentedText : String :=
  "'--é' /* é\n*/ x -- 'é"

/-- A literal with a comment mark and an accent stays where it was, and a comment with an accent
leaves two blanks for it. -/
theorem stripComments_commentedText :
    ofByteSymbols? (blankedBytes .sql commentedText) =
        some (String.ofList "'--é'      \n   x       ".toList) ∧
      ∀ i < 6, (blankedBytes .sql commentedText)[0 + i]? = (byteSymbols commentedText)[0 + i]? := by
  have hlayout := stripComments_layout .sql commentedText
  have htext : stripComments .sql commentedText.toList = "'--é'      \n   x       ".toList := by
    decide +kernel
  have hpieces : allPieces .sql (byteSymbols commentedText) = [] ++
      .literal (byteSymbols "'--é'") :: allPieces .sql ((byteSymbols commentedText).drop 6) := by
    decide +kernel
  rw [← htext]
  exact ⟨hlayout.1, hlayout.2.2.2.2.2.1 [] _ _ hpieces⟩

end SchemaDrift.Scan
