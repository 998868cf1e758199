import SchemaDrift.Proofs.Scan.Nested
import SchemaDrift.Proofs.Scan.Pieces
import SchemaDrift.Proofs.Text.Search

/-!
# Texts whose literals are terminated

In TypeScript a literal begins at a quote and ends at the next quote of its kind that no backslash
escapes (`endsLiteral`). A text is `Terminated` if all its literals end within it. Such a text falls
into the same pieces whatever follows it (`Terminated.codePieces_append`), so a scan over texts that
were put together is a scan over their pieces one after another. If no symbol of its code begins a
comment, the text is also kept as it is where comments are blanked (`Kept`).
-/

namespace SchemaDrift.Scan

variable {q c : Char} {s t x y rest : List Char} {ps : List Piece}

/-! ## Literals -/

/-- Whether a literal begins at a symbol. -/
def opensLiteral (c : Char) : Bool :=
  c == '\'' || c == '"' || c == '`'

/-- Whether a text, read from behind an opening quote, ends right where the literal ends: at the
first quote that no backslash escapes. -/
def endsLiteral (q : Char) : List Char → Bool
  | [] => false
  | [c] => c == q
  | c :: e :: s => if c = '\\' then endsLiteral q s else c != q && endsLiteral q (e :: s)

/-- Whether a piece is a symbol that begins no literal, or a literal that is terminated. -/
def Piece.isTerminated : Piece → Bool
  | code c => !opensLiteral c
  | literal (q :: s) => opensLiteral q && endsLiteral q s
  | _ => false

/-- A terminated piece is a symbol that opens no literal or a literal that ends. -/
theorem Piece.isTerminated_cases {p : Piece} (h : p.isTerminated) :
    (∃ c, p = .code c ∧ opensLiteral c = false) ∨
      ∃ q s, p = .literal (q :: s) ∧ opensLiteral q ∧ endsLiteral q s := by
  cases p with
  | code c => exact .inl ⟨c, rfl, by simpa [isTerminated] using h⟩
  | literal l =>
    cases l with
    | nil => cases h
    | cons q s => exact .inr ⟨q, s, rfl, Bool.and_eq_true _ _ ▸ h⟩
  | comment s => cases h

/-- A backslash opens no literal. -/
theorem ne_backslash_of_opensLiteral (h : opensLiteral q) : q ≠ '\\' := by
  rintro rfl
  cases h

/-- Behind a quote, the literal goes through the next quote that is not escaped. -/
theorem literal?_of_opensLiteral (h : opensLiteral q) (s : List Char) :
    literal? .typeScript (q :: s) = some (q :: throughEscapedQuote q s) := by
  simp only [opensLiteral, Bool.or_eq_true, beq_iff_eq, or_assoc] at h
  rw [literal?, if_pos h]

/-- A symbol that opens no literal begins none. -/
theorem literal?_of_not_opensLiteral (h : opensLiteral c = false) (s : List Char) :
    literal? .typeScript (c :: s) = none := by
  simp only [opensLiteral, Bool.or_eq_false_iff, beq_eq_false_iff_ne] at h
  simp [literal?, h]

/-- A literal is read up to the quote that ends it, whatever follows. -/
theorem throughEscapedQuote_append (hq : q ≠ '\\') (h : endsLiteral q s) (rest : List Char) :
    throughEscapedQuote q (s ++ rest) = s := by
  fun_induction endsLiteral q s with
  | case1 => cases h
  | case2 c =>
    obtain rfl := beq_iff_eq.1 h
    cases rest with
    | nil => rfl
    | cons e rest => simp [throughEscapedQuote, hq]
  | case3 e s ih => simp [throughEscapedQuote, ih h]
  | case4 c e s hc ih =>
    obtain ⟨hne, hs⟩ := Bool.and_eq_true _ _ ▸ h
    have hcq : c ≠ q := bne_iff_ne.1 hne
    have hrest := ih hs
    rw [List.cons_append] at hrest
    simp [throughEscapedQuote, hc, hcq, hrest]

/-- A literal that ends is read the same whatever follows. -/
theorem literal?_append (hq : opensLiteral q) (hs : endsLiteral q s) (rest : List Char) :
    literal? .typeScript (q :: (s ++ rest)) = some (q :: s) := by
  rw [literal?_of_opensLiteral hq,
    throughEscapedQuote_append (ne_backslash_of_opensLiteral hq) hs]

/-! ## Pieces -/

/-- Terminated pieces are read off their texts, whatever follows. -/
theorem codePieces_flatMap_text (h : ∀ p ∈ ps, p.isTerminated) (rest : List Char) :
    codePieces .typeScript (ps.flatMap Piece.text ++ rest) =
      ps ++ codePieces .typeScript rest := by
  induction ps with
  | nil => rfl
  | cons p ps ih =>
    rw [List.forall_mem_cons] at h
    obtain ⟨hp, hps⟩ := h
    rw [List.flatMap_cons, List.append_assoc, List.cons_append, ← ih hps]
    obtain ⟨c, rfl, hc⟩ | ⟨q, s, rfl, hq, hs⟩ := Piece.isTerminated_cases hp
    · simp [codePieces, Piece.text, pieces, literal?_of_not_opensLiteral hc]
    · simp [codePieces, Piece.text, pieces, literal?_append hq hs, pieces_skip]

/-- A text whose literals all end within it. -/
def Terminated (x : List Char) : Prop :=
  ∀ p ∈ codePieces .typeScript x, p.isTerminated

namespace Terminated

/-- A terminated text falls into the same pieces in front of any other. -/
theorem codePieces_append (hx : Terminated x) (rest : List Char) :
    codePieces .typeScript (x ++ rest) =
      codePieces .typeScript x ++ codePieces .typeScript rest := by
  have h := codePieces_flatMap_text hx rest
  rwa [flatMap_text_codePieces] at h

/-- Terminated texts one after the other are terminated. -/
theorem append (hx : Terminated x) (hy : Terminated y) : Terminated (x ++ y) := by
  rw [Terminated, hx.codePieces_append]
  exact List.forall_mem_append.2 ⟨hx, hy⟩

end Terminated

/-! ## Plain code -/

/-- A text without quotes falls into its symbols. -/
theorem codePieces_plain (h : x.any opensLiteral = false) :
    codePieces .typeScript x = x.map .code := by
  have hpieces := pieces_append (fun s => (literal? .typeScript s).map .literal)
    (x := x) (fun c hc s => by
      rw [literal?_of_not_opensLiteral (by simpa using List.any_eq_false.1 h c hc)]
      rfl) []
  rw [List.append_nil] at hpieces
  exact hpieces.trans (List.append_nil _)

/-- A text without quotes is terminated. -/
theorem terminated_plain (h : x.any opensLiteral = false) : Terminated x := by
  rw [Terminated, codePieces_plain h]
  intro p hp
  obtain ⟨c, hc, rfl⟩ := List.mem_map.1 hp
  simpa [Piece.isTerminated] using List.any_eq_false.1 h c hc

/-! ## Comments -/

/-- Whether no symbol of code begins a comment. -/
def uncommented : List Piece → Bool
  | [] => true
  | .code c :: ps =>
    (comment? .typeScript (c :: ps.flatMap Piece.text)).isNone && uncommented ps
  | _ :: ps => uncommented ps

/-- A text that does not complete the mark of a comment. -/
def CompletesNoMark (s : List Char) : Prop :=
  ∀ c ∈ s.head?, c ≠ '/' ∧ c ≠ '*'

/-- Whether a comment begins at a symbol is settled by the symbol behind it. -/
theorem comment?_eq_none_iff (c d : Char) (s : List Char) :
    comment? .typeScript (c :: d :: s) = none ↔ ¬(c = '/' ∧ (d = '/' ∨ d = '*')) := by
  simp only [comment?, Dialect.lineMark, List.isPrefixOf, Bool.and_true, Bool.and_eq_true,
    beq_iff_eq]
  grind

/-- A text in which no comment begins begins none in front of a text that completes no mark. -/
theorem comment?_append (h : comment? .typeScript (c :: x) = none) (hr : CompletesNoMark rest) :
    comment? .typeScript (c :: (x ++ rest)) = none := by
  cases x with
  | cons d x =>
    rw [comment?_eq_none_iff] at h
    rwa [List.cons_append, comment?_eq_none_iff]
  | nil =>
    cases rest with
    | nil => exact h
    | cons d rest =>
      obtain ⟨hslash, hstar⟩ := hr d rfl
      rw [List.nil_append, comment?_eq_none_iff]
      rintro ⟨-, rfl | rfl⟩
      · exact hslash rfl
      · exact hstar rfl

/-- Terminated pieces without a comment mark stay the same pieces in front of a text that completes
none. -/
theorem allPieces_flatMap_text (h : ∀ p ∈ ps, p.isTerminated) (hu : uncommented ps)
    (hr : CompletesNoMark rest) :
    allPieces .typeScript (ps.flatMap Piece.text ++ rest) = ps ++ allPieces .typeScript rest := by
  induction ps with
  | nil => rfl
  | cons p ps ih =>
    rw [List.forall_mem_cons] at h
    obtain ⟨hp, hps⟩ := h
    rw [List.flatMap_cons, List.append_assoc, List.cons_append]
    obtain ⟨c, rfl, hc⟩ | ⟨q, s, rfl, hq, hs⟩ := Piece.isTerminated_cases hp
    · obtain ⟨hnone, hu⟩ := Bool.and_eq_true _ _ ▸ hu
      have hcomment := comment?_append (Option.isNone_iff_eq_none.1 hnone) hr
      rw [← ih hps hu]
      simp [allPieces, Piece.text, pieces, literal?_of_not_opensLiteral hc, hcomment]
    · rw [← ih hps hu]
      simp [allPieces, Piece.text, pieces, literal?_append hq hs, pieces_skip]

/-- A text that is kept where comments are blanked, whatever follows that does not complete the mark
of a comment. -/
def Kept (x : List Char) : Prop :=
  ∀ rest, CompletesNoMark rest →
    stripComments .typeScript (x ++ rest) = x ++ stripComments .typeScript rest

/-- Terminated pieces are shown as they are. -/
theorem blanked_of_isTerminated {width : Char → Nat} {p : Piece} (h : p.isTerminated) :
    p.blanked width = p.text := by
  cases p with
  | code c => rfl
  | literal s => rfl
  | comment s => cases h

/-- A terminated text without a comment mark is kept. -/
theorem Terminated.kept (hx : Terminated x) (hu : uncommented (codePieces .typeScript x)) :
    Kept x := by
  intro rest hr
  have hall := allPieces_flatMap_text hx hu hr
  have hblank : (codePieces .typeScript x).flatMap (Piece.blanked Char.utf8Size) = x := by
    rw [List.flatMap_def, List.map_congr_left fun p hp => blanked_of_isTerminated (hx p hp),
      ← List.flatMap_def, flatMap_text_codePieces]
  rw [flatMap_text_codePieces] at hall
  rw [stripComments, blankComments, hall, List.flatMap_append, hblank]
  rfl

/-- A text without quotes and slashes is kept. -/
theorem kept_plain (h : x.any (fun c => opensLiteral c || c == '/') = false) : Kept x := by
  have hquote : x.any opensLiteral = false := by
    simp only [List.any_eq_false] at h ⊢
    exact fun c hc hq => h c hc (by simp [hq])
  refine (terminated_plain hquote).kept ?_
  rw [codePieces_plain hquote]
  clear hquote
  induction x with
  | nil => rfl
  | cons c x ih =>
    rw [List.any_cons, Bool.or_eq_false_iff] at h
    have hc : c ≠ '/' := by
      rintro rfl
      cases h.1
    have hnone : comment? .typeScript (c :: (x.map Piece.code).flatMap Piece.text) = none := by
      have hslash : ('/' == c) = false := beq_false_of_ne hc.symm
      simp [comment?, Dialect.lineMark, List.isPrefixOf, hslash]
    rw [List.map_cons, uncommented, hnone, ih h.2]
    rfl

/-- Kept texts one after the other are kept if no mark is completed between them. -/
theorem Kept.append (hx : Kept x) (hy : Kept y) (h : CompletesNoMark y) : Kept (x ++ y) := by
  intro rest hr
  have hnext : CompletesNoMark (y ++ rest) := by
    cases y with
    | nil => exact hr
    | cons d y => exact h
  rw [List.append_assoc, hx _ hnext, hy _ hr, List.append_assoc]

/-- A kept text is what remains of it without comments. -/
theorem Kept.stripComments_eq (hx : Kept x) : stripComments .typeScript x = x := by
  have h := hx [] (by rintro c ⟨⟩)
  rw [List.append_nil] at h
  exact h.trans (List.append_nil x)

/-- A text that is kept where comments are blanked and that completes no mark of a comment. -/
structure Uncommented (x : List Char) : Prop where
  kept : Kept x
  completesNoMark : CompletesNoMark x

namespace Uncommented

/-- Texts without comments one after the other are without comments. -/
theorem append (hx : Uncommented x) (hy : Uncommented y) : Uncommented (x ++ y) where
  kept := hx.kept.append hy.kept hy.completesNoMark
  completesNoMark := by
    cases x with
    | nil => exact hy.completesNoMark
    | cons c x => exact hx.completesNoMark

/-- A text without quotes, slashes and stars is without comments. -/
theorem plain (h : x.any (fun c => opensLiteral c || c == '/' || c == '*') = false) :
    Uncommented x where
  kept := by
    refine kept_plain ?_
    simp only [List.any_eq_false, Bool.or_eq_true, not_or] at h ⊢
    exact fun c hc => (h c hc).1
  completesNoMark := by
    intro c hc
    have hmem := List.any_eq_false.1 h c (List.mem_of_mem_head? hc)
    simp only [Bool.or_eq_true, beq_iff_eq, not_or] at hmem
    exact ⟨hmem.1.2, hmem.2⟩

end Uncommented

/-! ## Plain names -/

/-- Plain characters begin no literal. -/
theorem opensLiteral_of_isPlain (h : Migration.isPlain c) : opensLiteral c = false := by
  by_contra hc
  simp only [opensLiteral, Bool.not_eq_false, Bool.or_eq_true, beq_iff_eq] at hc
  obtain (rfl | rfl) | rfl := hc <;> cases h

/-- Plain characters make no comment. -/
theorem uncommented_of_plain (h : ∀ c ∈ x, Migration.isPlain c) : Uncommented x := by
  refine .plain (List.any_eq_false.2 fun c hc => ?_)
  have hslash : c ≠ '/' := by rintro rfl; cases h _ hc
  have hstar : c ≠ '*' := by rintro rfl; cases h _ hc
  simp [opensLiteral_of_isPlain (h c hc), hslash, hstar]

end SchemaDrift.Scan

namespace SchemaDrift.PlainName

open Scan

/-- A name has no character of a class without plain ones. -/
theorem any_eq_false (n : PlainName) {f : Char → Bool} (h : ∀ c, Migration.isPlain c → f c = false) :
    n.chars.any f = false := by
  rw [List.any_eq_false]
  intro c hc
  rw [h c (n.plain c hc)]
  exact Bool.false_ne_true

/-- A name holds no comment. -/
theorem uncommented (n : PlainName) : Uncommented n.chars :=
  uncommented_of_plain n.plain

end SchemaDrift.PlainName
