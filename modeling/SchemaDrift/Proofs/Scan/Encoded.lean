import SchemaDrift.Proofs.Migration.Words
import SchemaDrift.Proofs.Scan.Pieces
import SchemaDrift.Proofs.Scan.Symbols

/-!
# The scan of an encoded text

The scanner may read a text by its characters or by its bytes. Both ways the same literals and
comments are found (`literal?_symbols`, `comment?_symbols`), since all that the scanner looks for is
of ASCII and no byte of another character is. An escape may step over the first byte of such a
character only, but the bytes left over neither end the literal nor escape anything
(`throughEscapedQuote_symbols`). So the bytes of a text fall into the bytes of its pieces
(`allPieces_symbols`), and none of these begins or ends inside a character.
-/

namespace SchemaDrift.Scan

variable {d : Dialect} {q c e : Char} {s x tag : List Char}

/-! ## Symbols outside ASCII -/

/-- A function that keeps each symbol of a run keeps the run. -/
theorem append_of_cons {f : List Char → List Char} (h : ∀ b ∈ x, ∀ s, f (b :: s) = b :: f s)
    (s : List Char) : f (x ++ s) = x ++ f s := by
  induction x with
  | nil => rfl
  | cons b x ih =>
    rw [List.forall_mem_cons] at h
    rw [List.cons_append, h.1, ih h.2, List.cons_append]

/-- A character outside ASCII is none inside. -/
theorem ne_of_isAscii (hc : isAscii c = false) (he : isAscii e) : c ≠ e := by
  rintro rfl
  rw [hc] at he
  cases he

/-- A character is one of ASCII, which is its only byte, or all its bytes are outside ASCII. -/
theorem symbols_cases (c : Char) : (isAscii c ∧ symbols [c] = [c]) ∨
    isAscii c = false ∧ ∃ b x, symbols [c] = b :: x ∧ ∀ e ∈ b :: x, isAscii e = false := by
  cases hc : isAscii c with
  | true => exact .inl ⟨rfl, symbols_of_isAscii hc⟩
  | false =>
    obtain ⟨b, x, hx⟩ := List.exists_cons_of_ne_nil (symbols_ne_nil c)
    exact .inr ⟨rfl, b, x, hx, fun e he => isAscii_of_mem_symbols hc (hx ▸ he)⟩

/-- If all bytes of a text are ASCII, so are its characters. -/
theorem isAscii_of_mem (h : ∀ b ∈ symbols s, isAscii b) (hc : c ∈ s) : isAscii c := by
  obtain ⟨u, v, rfl⟩ := List.append_of_mem hc
  rcases symbols_cases c with ⟨hyes, -⟩ | ⟨-, b, x, hsymbols, hbx⟩
  · exact hyes
  · have hb := h b (by rw [symbols_append, symbols_cons c v, hsymbols]; simp)
    rw [hbx b List.mem_cons_self] at hb
    cases hb

/-- The characters of labels are ASCII characters. -/
theorem isAscii_of_isLabelChar (h : isLabelChar c) : isAscii c := by
  have hcode := Migration.isPlain_iff_toNat.1 h
  rw [isAscii, decide_eq_true_eq]
  omega

/-- A text begins with symbols of ASCII if its bytes do. -/
theorem prefix_symbols_iff (hx : ∀ c ∈ x, isAscii c) : x <+: symbols s ↔ x <+: s := by
  constructor
  · intro h
    induction x generalizing s with
    | nil => exact List.nil_prefix
    | cons e x ih =>
      rw [List.forall_mem_cons] at hx
      cases s with
      | nil => exact absurd (List.prefix_nil.1 h) (List.cons_ne_nil _ _)
      | cons c s =>
        rw [symbols_cons] at h
        rcases symbols_cases c with ⟨-, hc⟩ | ⟨-, b, y, hc, hby⟩
        · rw [hc, List.singleton_append, List.cons_prefix_cons] at h
          exact List.cons_prefix_cons.2 ⟨h.1, ih hx.2 h.2⟩
        · rw [hc, List.cons_append, List.cons_prefix_cons] at h
          exact absurd h.1.symm (ne_of_isAscii (hby b List.mem_cons_self) hx.1)
  · rintro ⟨t, rfl⟩
    rw [symbols_append, symbols_eq_self hx]
    exact List.prefix_append _ _

/-- A run of symbols with a property that all symbols outside ASCII have, or none, is found among
the bytes of a text. -/
theorem takeWhile_symbols {p : Char → Bool} {r : Bool} (hp : ∀ c, isAscii c = false → p c = r)
    (s : List Char) : (symbols s).takeWhile p = symbols (s.takeWhile p) := by
  induction s with
  | nil => rfl
  | cons c s ih =>
    rw [symbols_cons, List.takeWhile_cons]
    rcases symbols_cases c with ⟨-, hc⟩ | ⟨hno, b, x, hc, hbx⟩
    · rw [hc, List.singleton_append, List.takeWhile_cons, ih]
      split
      · rw [symbols_cons, hc]
        rfl
      · rfl
    · rw [hp c hno]
      cases r with
      | true =>
        rw [if_pos rfl, symbols_cons c (s.takeWhile p), ← ih, List.takeWhile_append_of_pos]
        exact fun e he => hp e (hbx e (hc ▸ he))
      | false =>
        rw [hc, List.cons_append, List.takeWhile_cons, hp b (hbx b List.mem_cons_self)]
        rfl

/-- A run of characters is dropped from the bytes as from the text, if all characters outside ASCII
are treated alike. -/
theorem dropWhile_symbols {p : Char → Bool} {r : Bool} (hp : ∀ c, isAscii c = false → p c = r)
    (s : List Char) : (symbols s).dropWhile p = symbols (s.dropWhile p) := by
  have hsplit : symbols (s.takeWhile p) ++ (symbols s).dropWhile p =
      symbols (s.takeWhile p) ++ symbols (s.dropWhile p) := by
    rw [← takeWhile_symbols hp, List.takeWhile_append_dropWhile, takeWhile_symbols hp,
      ← symbols_append, List.takeWhile_append_dropWhile]
  exact List.append_cancel_left hsplit

/-- The first byte of a text is an ASCII character exactly if that comes first in the text. -/
theorem head?_symbols_eq_iff (he : isAscii e) (s : List Char) :
    (symbols s).head? = some e ↔ s.head? = some e := by
  cases s with
  | nil => exact Iff.rfl
  | cons c s =>
    rw [symbols_cons]
    rcases symbols_cases c with ⟨-, hc⟩ | ⟨hno, b, x, hc, hbx⟩
    · rw [hc]
      exact Iff.rfl
    · have hb := ne_of_isAscii (hbx b List.mem_cons_self) he
      have hc' := ne_of_isAscii hno he
      simp [hc, hb, hc']

/-! ## Literals -/

/-- The search for a quote reads the same bytes as characters. -/
theorem throughQuote_symbols (hq : isAscii q) (s : List Char) :
    throughQuote q (symbols s) = symbols (throughQuote q s) := by
  induction s with
  | nil => rfl
  | cons c s ih =>
    rw [throughQuote]
    split
    · next hc =>
      rw [hc, symbols_cons_of_isAscii hq, throughQuote, if_pos rfl, symbols_of_isAscii hq]
    · next hc =>
      have hbytes : ∀ b ∈ symbols [c], ∀ t, throughQuote q (b :: t) = b :: throughQuote q t := by
        intro b hb t
        rw [throughQuote, if_neg]
        rintro rfl
        exact hc (eq_of_mem_symbols hq hb)
      rw [symbols_cons c s, append_of_cons hbytes, ih, ← symbols_append, List.singleton_append]

/-- The search for a quote goes through a character that is neither a quote nor a backslash. -/
theorem throughEscapedQuote_cons (hesc : c ≠ '\\') (hc : c ≠ q) (s : List Char) :
    throughEscapedQuote q (c :: s) = c :: throughEscapedQuote q s := by
  cases s with
  | nil => rfl
  | cons e s => rw [throughEscapedQuote, if_neg hesc, if_neg hc]

/-- The search for a quote ends at the quote. -/
theorem throughEscapedQuote_quote (hesc : q ≠ '\\') (s : List Char) :
    throughEscapedQuote q (q :: s) = [q] := by
  cases s with
  | nil => rfl
  | cons e s => rw [throughEscapedQuote, if_neg hesc, if_pos rfl]

/-- The search for a quote that is not escaped reads the same bytes as characters. -/
theorem throughEscapedQuote_symbols (hq : isAscii q) (s : List Char) :
    throughEscapedQuote q (symbols s) = symbols (throughEscapedQuote q s) := by
  have hesc : isAscii '\\' := by decide
  have hrun : ∀ {x}, (∀ b ∈ x, isAscii b = false) → ∀ t,
      throughEscapedQuote q (x ++ t) = x ++ throughEscapedQuote q t := fun hx =>
    append_of_cons fun b hb =>
      throughEscapedQuote_cons (ne_of_isAscii (hx b hb) hesc) (ne_of_isAscii (hx b hb) hq)
  fun_induction throughEscapedQuote q s with
  | case1 => rfl
  | case2 c =>
    rcases symbols_cases c with ⟨-, hc⟩ | ⟨-, b, x, hc, hbx⟩
    · rw [hc]
      rfl
    · rw [hc, ← List.append_nil (b :: x), hrun hbx]
      rfl
  | case3 e s ih =>
    rw [symbols_cons_of_isAscii hesc, symbols_cons e s, symbols_cons_of_isAscii hesc,
      symbols_cons e (throughEscapedQuote q s), ← ih]
    rcases symbols_cases e with ⟨-, he⟩ | ⟨-, b, x, he, hbx⟩
    · rw [he]
      simp [throughEscapedQuote]
    · rw [he, List.cons_append, throughEscapedQuote, if_pos rfl,
        hrun (List.forall_mem_cons.1 hbx).2]
      rfl
  | case4 e s hne =>
    rw [symbols_cons_of_isAscii hq, throughEscapedQuote_quote hne, symbols_of_isAscii hq]
  | case5 c e s hc hq' ih =>
    have hbytes : ∀ b ∈ symbols [c], ∀ t,
        throughEscapedQuote q (b :: t) = b :: throughEscapedQuote q t := by
      intro b hb
      refine throughEscapedQuote_cons ?_ ?_
      · rintro rfl
        exact hc (eq_of_mem_symbols hesc hb)
      · rintro rfl
        exact hq' (eq_of_mem_symbols hq hb)
    rw [symbols_cons c (e :: s), append_of_cons hbytes, ih, ← symbols_append, List.singleton_append]

/-- The search for a tag reads the same bytes as characters. -/
theorem throughTag_symbols (htag : ∀ c ∈ tag, isAscii c) (hne : tag ≠ []) (s : List Char) :
    throughTag tag (symbols s) = symbols (throughTag tag s) := by
  have hstep : ∀ {c s}, ¬ tag <+: c :: s → throughTag tag (c :: s) = c :: throughTag tag s := by
    intro c s h
    rw [throughTag, if_neg (by rwa [List.isPrefixOf_iff_prefix])]
  induction s with
  | nil => rfl
  | cons c s ih =>
    by_cases hyes : tag <+: c :: s
    · have hbytes := (prefix_symbols_iff htag).2 hyes
      obtain ⟨b, y, hb⟩ : ∃ b y, symbols (c :: s) = b :: y :=
        List.exists_cons_of_ne_nil fun h => hne (List.prefix_nil.1 (h ▸ hbytes))
      rw [hb] at hbytes ⊢
      rw [throughTag, if_pos (List.isPrefixOf_iff_prefix.2 hbytes), throughTag,
        if_pos (List.isPrefixOf_iff_prefix.2 hyes), symbols_eq_self htag]
    · have hno := mt (prefix_symbols_iff htag).1 hyes
      rw [hstep hyes, symbols_cons c (throughTag tag s), ← ih]
      rcases symbols_cases c with ⟨hc, hsymbol⟩ | ⟨-, b, x, hsymbols, hbx⟩
      · rw [symbols_cons_of_isAscii hc] at hno ⊢
        rw [hstep hno, hsymbol]
        rfl
      · -- No byte of the character is the first symbol of the tag.
        rw [symbols_cons, hsymbols]
        refine append_of_cons (fun b' hb' t => hstep fun hmark => ?_) (symbols s)
        obtain ⟨e, tag, rfl⟩ := List.exists_cons_of_ne_nil hne
        rw [List.cons_prefix_cons] at hmark
        exact ne_of_isAscii (hbx b' hb') (htag e List.mem_cons_self) hmark.1.symm

/-- The tag of a dollar quote is told by the bytes of a text as by the text. -/
theorem dollarTag?_symbols (s : List Char) : dollarTag? (symbols s) = dollarTag? s := by
  ext tag
  rw [dollarTag?_eq_some_iff, dollarTag?_eq_some_iff]
  constructor
  · rintro ⟨label, t, hs, rfl, hlabel, hdigit⟩
    obtain ⟨u, v, rfl, rfl, rfl⟩ := exists_of_symbols_eq (by decide) hs
    have hself : symbols u = u := symbols_eq_self fun c =>
      isAscii_of_mem fun b hb => isAscii_of_isLabelChar (hlabel b hb)
    rw [hself] at hlabel hdigit ⊢
    exact ⟨u, v, rfl, rfl, hlabel, hdigit⟩
  · rintro ⟨label, t, rfl, rfl, hlabel, hdigit⟩
    have hself := symbols_eq_self fun c hc => isAscii_of_isLabelChar (hlabel c hc)
    refine ⟨label, symbols t, ?_, rfl, hlabel, hdigit⟩
    rw [symbols_append, hself, symbols_cons_of_isAscii (by decide)]

/-- A dollar quote is read off the bytes as off the text. -/
theorem literal?_dollar_symbols (s : List Char) :
    literal? .sql ('$' :: symbols s) = (literal? .sql ('$' :: s)).map symbols := by
  cases htag : dollarTag? s with
  | none =>
    have hbytes := (dollarTag?_symbols s).trans htag
    rw [literal?, literal?, hbytes, htag]
    rfl
  | some tag =>
    obtain ⟨label, t, rfl, rfl, hlabel, -⟩ := dollarTag?_eq_some_iff.1 htag
    have hascii : ∀ c ∈ '$' :: label ++ ['$'], isAscii c := by
      intro c hc
      simp only [List.cons_append, List.mem_cons, List.mem_append, List.not_mem_nil, or_false] at hc
      rcases hc with rfl | hc | rfl
      · decide
      · exact isAscii_of_isLabelChar (hlabel c hc)
      · decide
    have hself := symbols_eq_self fun c hc => isAscii_of_isLabelChar (hlabel c hc)
    rw [symbols_append, hself, symbols_cons_of_isAscii (by decide), literal?_dollar htag,
      literal?_dollar htag, Option.map_some, symbols_append, symbols_eq_self hascii,
      throughTag_symbols hascii (by simp)]

/-- No literal begins outside ASCII. -/
theorem literal?_of_not_isAscii (hc : isAscii c = false) (s : List Char) :
    literal? d (c :: s) = none := by
  have hne : ∀ e, isAscii e → c ≠ e := fun e => ne_of_isAscii hc
  cases d <;> simp [literal?, hne '\'' (by decide), hne '"' (by decide), hne '$' (by decide),
    hne '`' (by decide)]

/-- The literal at the head of the bytes of a text is the literal at its head. -/
theorem literal?_symbols (d : Dialect) (s : List Char) :
    literal? d (symbols s) = (literal? d s).map symbols := by
  cases s with
  | nil => cases d <;> rfl
  | cons q s =>
    rcases symbols_cases q with ⟨hq, -⟩ | ⟨hq, b, x, hsymbols, hbx⟩
    · rw [symbols_cons_of_isAscii hq]
      cases d with
      | sql =>
        by_cases hdollar : q = '$'
        · rw [hdollar, literal?_dollar_symbols]
        rw [literal?, literal?]
        split
        · rw [Option.map_some, symbols_cons_of_isAscii hq, throughQuote_symbols hq]
        · rfl
      | typeScript =>
        rw [literal?, literal?]
        split
        · rw [Option.map_some, symbols_cons_of_isAscii hq, throughEscapedQuote_symbols hq]
        · rfl
    · rw [symbols_cons, hsymbols, List.cons_append,
        literal?_of_not_isAscii (hbx b List.mem_cons_self), literal?_of_not_isAscii hq]
      rfl

/-! ## Comments -/

/-- No comment begins outside ASCII. -/
theorem comment?_of_not_isAscii (hc : isAscii c = false) (s : List Char) :
    comment? d (c :: s) = none := by
  have hne : ∀ e, isAscii e → e ≠ c := fun e he => (ne_of_isAscii hc he).symm
  cases d <;> simp [comment?, Dialect.lineMark, List.isPrefixOf, hne '-' (by decide),
    hne '/' (by decide)]

/-- The comment at the head of the bytes of a text is the comment at its head. -/
theorem comment?_symbols (d : Dialect) (s : List Char) :
    comment? d (symbols s) = (comment? d s).map symbols := by
  have hline : ∀ c ∈ d.lineMark, isAscii c := List.all_eq_true.1 (by cases d <;> decide)
  have hopen : ∀ c ∈ ['/', '*'], isAscii c := List.all_eq_true.1 (by decide)
  have hclose : ∀ c ∈ ['*', '/'], isAscii c := List.all_eq_true.1 (by decide)
  by_cases hmark : d.lineMark <+: s
  · obtain ⟨t, rfl⟩ := hmark
    have hrun := takeWhile_symbols (p := fun c => decide (c ≠ '\n')) (r := true)
      (fun c hc => decide_eq_true (ne_of_isAscii hc (by decide))) t
    rw [symbols_append, symbols_eq_self hline, comment?_line, comment?_line, hrun, Option.map_some,
      symbols_append, symbols_eq_self hline]
  by_cases hblock : ['/', '*'] <+: s
  · obtain ⟨t, rfl⟩ := hblock
    have hopening : ∀ t, comment? d (['/', '*'] ++ t) =
        some (['/', '*'] ++ throughTag ['*', '/'] t) := comment?_block d
    rw [symbols_append, symbols_eq_self hopen, hopening, hopening, Option.map_some, symbols_append,
      symbols_eq_self hopen, throughTag_symbols hclose (List.cons_ne_nil _ _)]
  · have hnone : ∀ t, ¬ d.lineMark <+: t → ¬ ['/', '*'] <+: t → comment? d t = none := by
      intro t hmark hblock
      rw [← List.isPrefixOf_iff_prefix] at hmark hblock
      rw [comment?, if_neg hmark, if_neg hblock]
    rw [hnone s hmark hblock, hnone (symbols s) (mt (prefix_symbols_iff hline).1 hmark)
      (mt (prefix_symbols_iff hopen).1 hblock)]
    rfl

/-! ## Pieces -/

/-- A piece of a text as the pieces of its bytes. -/
def Piece.inBytes : Piece → List Piece
  | code c => (symbols [c]).map .code
  | literal l => [.literal (symbols l)]
  | comment k => [.comment (symbols k)]

/-- The bytes of a text fall into the bytes of its pieces. -/
theorem allPieces_symbols (d : Dialect) (s : List Char) :
    allPieces d (symbols s) = (allPieces d s).flatMap Piece.inBytes := by
  generalize hps : allPieces d s = ps
  induction ps generalizing s with
  | nil =>
    have hnil := flatMap_text_allPieces (d := d) s
    rw [hps] at hnil
    rw [← hnil]
    rfl
  | cons p ps ih =>
    obtain ⟨t, rfl, ht, hp⟩ := exists_of_pieces_eq_cons commentReader_spec hps
    rw [List.flatMap_cons, ← ih t ht.symm, symbols_append]
    rcases hp with hp | ⟨hp, c, rfl⟩
    · obtain ⟨l, rfl, hl⟩ | ⟨k, rfl, hk⟩ := commentReader_cases hp
      · have hbytes : literal? d (symbols l ++ symbols t) = some (symbols l) := by
          rw [← symbols_append, literal?_symbols, ← Option.map_some]
          exact congrArg (Option.map symbols) hl
        exact allPieces_of_literal hbytes
      · have hbytes : comment? d (symbols k ++ symbols t) = some (symbols k) := by
          rw [← symbols_append, comment?_symbols, ← Option.map_some]
          exact congrArg (Option.map symbols) hk
        exact allPieces_of_comment hbytes
    · rw [Piece.inBytes, Piece.text]
      rcases symbols_cases c with ⟨hc, hsymbol⟩ | ⟨-, b, x, hsymbols, hbx⟩
      · rw [Option.or_eq_none_iff, Option.map_eq_none_iff, Option.map_eq_none_iff, Piece.text,
          List.singleton_append] at hp
        rw [hsymbol, List.singleton_append]
        refine allPieces_of_none ?_ ?_
        · rw [← symbols_cons_of_isAscii hc, literal?_symbols, hp.1, Option.map_none]
        · rw [← symbols_cons_of_isAscii hc, comment?_symbols, hp.2, Option.map_none]
      · rw [hsymbols]
        refine pieces_append _ (fun e he s => ?_) (symbols t)
        rw [literal?_of_not_isAscii (hbx e he), comment?_of_not_isAscii (hbx e he)]
        rfl

end SchemaDrift.Scan
