import Mathlib.Data.Bool.AllAny
import SchemaDrift.Migration.Extract
import SchemaDrift.Proofs.Scan.Nested
import SchemaDrift.Proofs.Scan.Pieces
import SchemaDrift.Proofs.Text.Decoding
import SchemaDrift.Query.Extract
import SchemaDrift.RowType.Extract

/-!
# Comments say nothing

A comment may be replaced by another comment, or by blanks, of as many bytes and with the same line
ends (`Replaces`): the text without its comments stays the same (`Replaces.stripComments_eq`), and
so does all that is read off it (`extract_replaced_comment`). One thing has to be kept apart. A
hyphen before the comment must not form a mark with a hyphen that the replacement begins with, since
the comment would then begin at the first of them (`extract_behind_hyphen`).
-/

namespace SchemaDrift.Scan

open SchemaDrift.Text (utf8 toNat_eq_of_mem_utf8EncodeChar takeWhile_append_of_stop)

variable {d : Dialect} {a b k k' tag x : List Char}

/-- The scan of a text comes to the place between two parts of it outside every literal and
comment. -/
def Reaches (d : Dialect) (before rest : List Char) : Prop :=
  ∃ ps, ps <+: allPieces d (before ++ rest) ∧ ps.flatMap Piece.text = before

/-- One complete comment, with the text behind it: up to the end of a line or of the text, or up to
the first star and slash. -/
inductive CompleteComment (d : Dialect) : List Char → List Char → Prop
  | line {body b : List Char} (hbody : '\n' ∉ body) (hb : ∀ c ∈ b.head?, c = '\n') :
    CompleteComment d (d.lineMark ++ body) b
  | block {body b : List Char} (hbody : ¬ ['*', '/'] <:+: body ++ ['*']) :
    CompleteComment d ('/' :: '*' :: (body ++ ['*', '/'])) b

/-- Texts of as many bytes, with line ends at the same offsets. -/
def SameLayout (x y : List Char) : Prop :=
  (utf8 x).map (· == 10) = (utf8 y).map (· == 10)

instance (x y : List Char) : Decidable (SameLayout x y) :=
  inferInstanceAs (Decidable (_ = _))

/-- In a text, a comment may be replaced by another one or by blanks. -/
structure Replaces (d : Dialect) (a k k' b : List Char) : Prop where
  reached : Reaches d a (k ++ b)
  comment : CompleteComment d k b
  replacement :
    CompleteComment d k' b ∧ ¬(a.getLast? = some '-' ∧ k'.head? = some '-') ∨
      ∀ c ∈ k', c = ' ' ∨ c = '\n'
  layout : SameLayout k k'

/-! ## Complete comments -/

/-- A search for a tag stops at the first one. -/
theorem throughTag_first (htag : tag ≠ []) (h : ¬ tag <:+: x ++ tag.dropLast) (rest : List Char) :
    throughTag tag (x ++ (tag ++ rest)) = x ++ tag := by
  have hlen : tag.dropLast.length + 1 = tag.length := by
    have := List.length_pos_iff.2 htag
    rw [List.length_dropLast]
    omega
  induction x with
  | nil =>
    cases tag with
    | nil => exact absurd rfl htag
    | cons c tag =>
      have hself : (c :: tag).isPrefixOf (c :: (tag ++ rest)) :=
        List.isPrefixOf_iff_prefix.2 (List.prefix_append (c :: tag) rest)
      simp only [List.nil_append, List.cons_append, throughTag, hself, if_true]
  | cons c x ih =>
    have hno : ¬ tag <+: c :: (x ++ (tag ++ rest)) := by
      intro hyes
      have hlong : c :: (x ++ tag.dropLast) <+: c :: (x ++ (tag ++ rest)) := by
        rw [List.prefix_cons_inj, List.prefix_append_right_inj]
        exact (List.dropLast_prefix tag).trans (List.prefix_append tag rest)
      refine h (List.prefix_of_prefix_length_le hyes hlong ?_).isInfix
      rw [List.length_cons, List.length_append]
      omega
    rw [List.cons_append, throughTag, if_neg (by rwa [List.isPrefixOf_iff_prefix]), ih]
    · rfl
    · exact fun hx => h (hx.trans (List.suffix_cons c _).isInfix)

/-- A complete comment is read as one. -/
theorem CompleteComment.comment?_eq (h : CompleteComment d k b) : comment? d (k ++ b) = some k := by
  cases h with
  | @line body b hbody hb =>
    have hrun : ∀ c ∈ body, decide (c ≠ '\n') = true := by
      intro c hc
      rw [decide_eq_true_iff]
      rintro rfl
      exact hbody hc
    have hstop : ∀ c ∈ b.head?, decide (c ≠ '\n') = false := by
      intro c hc
      rw [hb c hc]
      rfl
    rw [List.append_assoc, comment?_line, takeWhile_append_of_stop hrun hstop]
  | @block body b hbody =>
    have hmark : throughTag ['*', '/'] (body ++ (['*', '/'] ++ b)) = body ++ ['*', '/'] :=
      throughTag_first (by simp) hbody b
    simpa [comment?_block] using hmark

/-- The symbols that a comment may begin with. -/
theorem CompleteComment.exists_cons (h : CompleteComment d k b) :
    ∃ e t, k = e :: t ∧ (e = '/' ∨ d = .sql ∧ e = '-') := by
  cases h with
  | line => cases d <;> exact ⟨_, _, rfl, by simp⟩
  | block => exact ⟨_, _, rfl, by simp⟩

/-! ## Blanked comments -/

/-- Blanking a character leaves a space for each of its bytes, or its line end. -/
theorem blanked_char (c : Char) :
    (if c = '\n' then [c] else List.replicate c.utf8Size ' ') =
      (String.utf8EncodeChar c).map fun b => if b == 10 then '\n' else ' ' := by
  split
  · next hc =>
    rw [hc]
    rfl
  · next hc =>
    have hspace : ∀ b ∈ String.utf8EncodeChar c, (if b == 10 then '\n' else ' ') = ' ' := by
      intro b hb
      rw [if_neg]
      rw [beq_iff_eq]
      rintro rfl
      exact hc (Char.toNat_inj.1 (toNat_eq_of_mem_utf8EncodeChar hb (by decide)))
    rw [List.map_congr_left hspace, List.map_const', String.length_utf8EncodeChar]

/-- A blanked comment shows the layout of the comment and nothing else of it. -/
theorem blanked_comment (k : List Char) : (Piece.comment k).blanked Char.utf8Size =
    ((utf8 k).map (· == 10)).map fun newline => if newline then '\n' else ' ' := by
  rw [List.map_map, utf8, List.map_flatMap, Piece.blanked]
  simp only [blanked_char]
  rfl

/-- Comments with the same layout are blanked alike. -/
theorem SameLayout.blanked_eq (h : SameLayout k k') :
    (Piece.comment k).blanked Char.utf8Size = (Piece.comment k').blanked Char.utf8Size := by
  rw [blanked_comment, blanked_comment, h]

/-- What has the layout of a comment is not empty. -/
theorem SameLayout.ne_nil (h : SameLayout k k') (hk : k ≠ []) : k' ≠ [] := by
  rintro rfl
  obtain ⟨c, k, rfl⟩ := List.exists_cons_of_ne_nil hk
  have hbytes : utf8 (c :: k) = [] := List.map_eq_nil_iff.1 h
  have hlen := congrArg List.length (List.append_eq_nil_iff.1 hbytes).1
  rw [String.length_utf8EncodeChar] at hlen
  exact absurd hlen c.utf8Size_pos.ne'

/-- Blanks are blanked to themselves, as code and as a comment. -/
theorem blanked_blanks (h : ∀ c ∈ k, c = ' ' ∨ c = '\n') :
    (Piece.comment k).blanked Char.utf8Size = k := by
  rw [Piece.blanked]
  induction k with
  | nil => rfl
  | cons c k ih =>
    rw [List.forall_mem_cons] at h
    rw [List.flatMap_cons, ih h.2]
    rcases h.1 with rfl | rfl <;> rfl

/-- Blanks are pieces of code one by one. -/
theorem allPieces_blanks (h : ∀ c ∈ k, c = ' ' ∨ c = '\n') (b : List Char) :
    allPieces d (k ++ b) = k.map .code ++ allPieces d b := by
  refine pieces_append _ (fun c hc s => ?_) b
  rcases h c hc with rfl | rfl <;> cases d <;> rfl

/-! ## Replaced comments -/

namespace Replaces

/-- Whatever is put in place of the comment is blanked as it was. -/
theorem blanked_replacement (h : Replaces d a k k' b) :
    stripComments d (k' ++ b) = stripComments d (k ++ b) := by
  have hk : stripComments d (k ++ b) =
      (Piece.comment k).blanked Char.utf8Size ++ stripComments d b := by
    rw [stripComments, blankComments, allPieces_of_comment h.comment.comment?_eq]
    rfl
  rw [hk, h.layout.blanked_eq]
  rcases h.replacement with ⟨hcomment, -⟩ | hblank
  · rw [stripComments, blankComments, allPieces_of_comment hcomment.comment?_eq]
    rfl
  · rw [blanked_blanks hblank, stripComments, blankComments, allPieces_blanks hblank,
      List.flatMap_append, List.flatMap_map]
    congr 1
    exact List.flatMap_singleton' k'

/-- A replacement begins with a symbol of no label that completes no mark of a comment. -/
theorem exists_cons (h : Replaces d a k k' b) : ∃ e t, k' = e :: t ∧ isLabelChar e = false ∧
    e ≠ '$' ∧ ∀ c ∈ a.getLast?, comment? d (c :: (k ++ b)) = none →
      comment? d (c :: (k' ++ b)) = none := by
  obtain ⟨f, s, rfl, hf⟩ := h.comment.exists_cons
  rcases h.replacement with ⟨hcomment, hhyphen⟩ | hblank
  · obtain ⟨e, t, rfl, he⟩ := hcomment.exists_cons
    refine ⟨e, t, rfl, ?_, ?_, fun c hc hnone => ?_⟩
    · rcases he with rfl | ⟨-, rfl⟩ <;> decide
    · rcases he with rfl | ⟨-, rfl⟩ <;> decide
    · rw [List.cons_append, comment?_eq_none_iff_marks] at hnone ⊢
      cases d with
      | sql =>
        refine ⟨fun hmark => ?_, fun hmark => ?_⟩
        · obtain ⟨rfl, htail⟩ := List.cons.inj hmark
          exact hhyphen ⟨hc, by rw [(List.cons.inj htail).1]; rfl⟩
        · rw [(List.cons.inj (List.cons.inj hmark).2).1] at he
          rcases he with he | ⟨-, he⟩ <;> cases he
      | typeScript =>
        -- Every comment begins with a slash, so the marks are those that the comment completes.
        have hfe : f = e := by
          rcases hf with rfl | ⟨hd, -⟩
          · rcases he with rfl | ⟨hd, -⟩
            · rfl
            · cases hd
          · cases hd
        rwa [← hfe]
  · obtain ⟨e, t, rfl⟩ := List.exists_cons_of_ne_nil (h.layout.ne_nil (List.cons_ne_nil f s))
    have he := (List.forall_mem_cons.1 hblank).1
    refine ⟨e, t, rfl, ?_, ?_, fun c _ _ => ?_⟩
    · rcases he with rfl | rfl <;> decide
    · rcases he with rfl | rfl <;> decide
    · rw [List.cons_append, comment?_eq_none_iff_marks]
      cases d <;> rcases he with rfl | rfl <;> simp [Dialect.lineMark]

/-- The text before the comment falls into the same pieces before what is put in its place. -/
theorem allPieces_eq (h : Replaces d a k k' b) : ∃ ps,
    allPieces d (a ++ (k ++ b)) = ps ++ allPieces d (k ++ b) ∧
      allPieces d (a ++ (k' ++ b)) = ps ++ allPieces d (k' ++ b) := by
  obtain ⟨e', t', rfl, hlabel', hdollar, hmark⟩ := h.exists_cons
  obtain ⟨ps, hps, rfl⟩ := h.reached
  obtain ⟨e, t, rfl, he⟩ := h.comment.exists_cons
  have hline : e ≠ '\n' := by rcases he with rfl | ⟨-, rfl⟩ <;> decide
  have hlabel : isLabelChar e = false := by rcases he with rfl | ⟨-, rfl⟩ <;> decide
  exact ⟨ps, allPieces_append_congr hps hline hlabel id fun _ _ => id,
    allPieces_append_congr hps hline hlabel' (fun h => absurd h hdollar) hmark⟩

/-- A comment that is replaced leaves the text without comments as it was. -/
theorem stripComments_eq (h : Replaces d a k k' b) :
    stripComments d (a ++ (k ++ b)) = stripComments d (a ++ (k' ++ b)) := by
  obtain ⟨ps, hk, hk'⟩ := h.allPieces_eq
  have hrest := h.blanked_replacement
  rw [stripComments, stripComments, blankComments, blankComments] at hrest ⊢
  rw [hk, hk', List.flatMap_append, List.flatMap_append, hrest]

end Replaces

end SchemaDrift.Scan

namespace SchemaDrift

open Scan

/-! ## Extractions -/

/-- Replacing a comment changes nothing that is extracted: no snapshot and no diagnostic. -/
theorem extract_replaced_comment (name : String) (a k k' b : List Char) :
    (Replaces .sql a k k' b → ∀ before after : List Source,
      Migration.extract (before ++ ⟨name, .ofList (a ++ (k ++ b))⟩ :: after) =
        Migration.extract (before ++ ⟨name, .ofList (a ++ (k' ++ b))⟩ :: after)) ∧
    (Replaces .typeScript a k k' b →
      RowType.extract ⟨name, .ofList (a ++ (k ++ b))⟩ =
        RowType.extract ⟨name, .ofList (a ++ (k' ++ b))⟩ ∧
      ∀ (pairing : Pairing) (before after : List Source),
        Query.extract pairing (before ++ ⟨name, .ofList (a ++ (k ++ b))⟩ :: after) =
          Query.extract pairing (before ++ ⟨name, .ofList (a ++ (k' ++ b))⟩ :: after)) := by
  refine ⟨fun h before after => ?_, fun h => ⟨?_, fun pairing before after => ?_⟩⟩
  · have hfacts : Migration.facts ⟨name, .ofList (a ++ (k ++ b))⟩ =
        Migration.facts ⟨name, .ofList (a ++ (k' ++ b))⟩ := by
      simp only [Migration.facts, String.toList_ofList, h.stripComments_eq]
    simp only [Migration.extract, List.flatMap_append, List.flatMap_cons, Migration.diagnostics,
      hfacts]
  · simp only [RowType.extract, String.toList_ofList, h.stripComments_eq]
  · have hevents : Query.moduleEvents ⟨name, .ofList (a ++ (k ++ b))⟩ =
        Query.moduleEvents ⟨name, .ofList (a ++ (k' ++ b))⟩ := by
      simp only [Query.moduleEvents, String.toList_ofList, h.stripComments_eq]
    simp only [Query.extract, List.foldl_append, List.foldl_cons, List.flatMap_append,
      List.flatMap_cons, Query.Draft.add, Query.diagnostics, hevents]

/-- In a migration, a block comment with quotes in it may be replaced by a line comment. -/
theorem replaces_in_migration : Replaces .sql "CREATE TABLE t (a TEXT DEFAULT '--', ".toList
    "/* it's $$ (, */".toList "-- CREATE TABLE ".toList "\nb INT);".toList where
  reached := ⟨(allPieces .sql "CREATE TABLE t (a TEXT DEFAULT '--', /**/".toList).take 34, by
    decide +kernel, by decide +kernel⟩
  comment := @CompleteComment.block .sql " it's $$ (, ".toList _ (by decide +kernel)
  replacement := .inl ⟨@CompleteComment.line .sql " CREATE TABLE ".toList _ (by decide +kernel)
    fun _ hc => Option.some.inj (hc.symm.trans (by decide +kernel)), by decide +kernel⟩
  layout := by decide +kernel

/-- In a module, a comment over two lines may be replaced by blanks with a line end. -/
theorem replaces_in_module : Replaces .typeScript "db.from('/*') ".toList
    "/* `\n.from('b') */".toList "    \n             ".toList ".eq('a', 1)".toList where
  reached := ⟨(allPieces .typeScript "db.from('/*') /**/".toList).take 11, by
    decide +kernel, by decide +kernel⟩
  comment := @CompleteComment.block .typeScript " `\n.from('b') ".toList _ (by decide +kernel)
  replacement := .inr (List.all_iff_forall_prop.1 (by decide +kernel))
  layout := by decide +kernel

/-- Quotes, a dollar quote, brackets, a definition and a query in comments. -/
theorem extract_replaced_quotes :
    Migration.extract [⟨"m", .ofList ("CREATE TABLE t (a TEXT DEFAULT '--', ".toList ++
        ("/* it's $$ (, */".toList ++ "\nb INT);".toList))⟩] =
      Migration.extract [⟨"m", .ofList ("CREATE TABLE t (a TEXT DEFAULT '--', ".toList ++
        ("-- CREATE TABLE ".toList ++ "\nb INT);".toList))⟩] ∧
    Query.extract .nearest [⟨"q", .ofList ("db.from('/*') ".toList ++
        ("/* `\n.from('b') */".toList ++ ".eq('a', 1)".toList))⟩] =
      Query.extract .nearest [⟨"q", .ofList ("db.from('/*') ".toList ++
        ("    \n             ".toList ++ ".eq('a', 1)".toList))⟩] :=
  ⟨(extract_replaced_comment "m" _ _ _ _).1 replaces_in_migration [] [],
    ((extract_replaced_comment "q" _ _ _ _).2 replaces_in_module).2 .nearest [] []⟩

/-- Behind a hyphen, a line comment begins one symbol earlier than the comment that it replaces. -/
theorem extract_behind_hyphen :
    Reaches .sql "CREATE TABLE t (a INT, -".toList ("/*b*/".toList ++ "\nc INT);".toList) ∧
    CompleteComment .sql "/*b*/".toList "\nc INT);".toList ∧
    CompleteComment .sql "--  x".toList "\nc INT);".toList ∧
    SameLayout "/*b*/".toList "--  x".toList ∧
    (Migration.extract [⟨"m", .ofList ("CREATE TABLE t (a INT, -".toList ++
        ("/*b*/".toList ++ "\nc INT);".toList))⟩]).snapshot ≠
      (Migration.extract [⟨"m", .ofList ("CREATE TABLE t (a INT, -".toList ++
        ("--  x".toList ++ "\nc INT);".toList))⟩]).snapshot := by
  refine ⟨⟨(allPieces .sql "CREATE TABLE t (a INT, -/*b*/".toList).take 24, ?_, ?_⟩,
    @CompleteComment.block .sql "b".toList _ ?_, @CompleteComment.line .sql "  x".toList _ ?_
      fun _ hc => Option.some.inj (hc.symm.trans ?_), ?_, ?_⟩
  all_goals decide +kernel

end SchemaDrift
