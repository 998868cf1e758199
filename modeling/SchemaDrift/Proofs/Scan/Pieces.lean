import Mathlib.Data.List.TakeWhile
import SchemaDrift.Proofs.Text.Runs
import SchemaDrift.Scan.Bracket

/-!
# Where pieces end

The pieces of a text make it up (`flatMap_text_pieces`), since a literal or a comment is always read
off the head of a text (`literal?_spec`, `comment?_spec`). A literal that ends before the text does
is read the same whatever follows (`literal?_swap`), and so is a comment, except that a line
comment needs the end of its line (`comment?_swap`). So a text whose pieces end at some place falls
into the same pieces up to there if what follows is replaced (`allPieces_append_congr`).
-/

namespace SchemaDrift.Scan

open SchemaDrift.Text (takeWhile_append_of_stop dropWhile_append_of_stop)

variable {d : Dialect} {q c : Char} {tag l k r r' s t x z : List Char} {p : Piece}
  {ps qs : List Piece}

/-! ## Readers of pieces -/

section Reader

variable {read? : List Char → Option Piece}

/-- Symbols that were read before make no piece. -/
theorem pieces_skip (read? : List Char → Option Piece) (x rest : List Char) :
    pieces read? x.length (x ++ rest) = pieces read? 0 rest := by
  induction x with
  | nil => rfl
  | cons c x ih => exact ih

/-- Where nothing is read, a symbol is code. -/
theorem pieces_of_none (h : read? (c :: s) = none) :
    pieces read? 0 (c :: s) = .code c :: pieces read? 0 s := by
  simp only [pieces, h]

/-- What is read at the head of a text is its first piece. -/
theorem pieces_of_some (hne : p.text ≠ []) (h : read? (p.text ++ t) = some p) :
    pieces read? 0 (p.text ++ t) = p :: pieces read? 0 t := by
  cases hp : p.text with
  | nil => exact absurd hp hne
  | cons c u =>
    rw [hp, List.cons_append] at h
    simp only [List.cons_append, pieces, h, hp, List.length_cons, Nat.add_sub_cancel, pieces_skip]

variable (hread : ∀ s p, read? s = some p → p.text ≠ [] ∧ p.text <+: s)

include hread

/-- The first piece of a text is read off its head or a symbol of code, and the others are the
pieces of what is behind it. -/
theorem exists_of_pieces_eq_cons (h : pieces read? 0 s = p :: qs) :
    ∃ t, s = p.text ++ t ∧ qs = pieces read? 0 t ∧
      (read? s = some p ∨ read? s = none ∧ ∃ c, p = .code c) := by
  cases s with
  | nil => cases h
  | cons c s =>
    cases hr : read? (c :: s) with
    | none =>
      rw [pieces_of_none hr] at h
      obtain ⟨rfl, rfl⟩ := List.cons_eq_cons.1 h
      exact ⟨s, rfl, rfl, .inr ⟨rfl, c, rfl⟩⟩
    | some p' =>
      obtain ⟨hne, t, ht⟩ := hread _ p' hr
      rw [← ht] at hr h ⊢
      rw [pieces_of_some hne hr] at h
      obtain ⟨rfl, rfl⟩ := List.cons_eq_cons.1 h
      exact ⟨t, rfl, rfl, .inl rfl⟩

/-- The texts of the pieces make up the text. -/
theorem flatMap_text_pieces (s : List Char) : (pieces read? 0 s).flatMap Piece.text = s := by
  generalize hps : pieces read? 0 s = ps
  induction ps generalizing s with
  | nil =>
    cases s with
    | nil => rfl
    | cons c s =>
      rw [pieces] at hps
      split at hps <;> cases hps
  | cons p ps ih =>
    obtain ⟨t, rfl, ht, -⟩ := exists_of_pieces_eq_cons hread hps
    rw [List.flatMap_cons, ih t ht.symm]

/-- The pieces behind some of the pieces of a text are the pieces of the text behind them. -/
theorem pieces_of_append (h : pieces read? 0 s = ps ++ qs) :
    pieces read? 0 (qs.flatMap Piece.text) = qs := by
  induction ps generalizing s with
  | nil =>
    rw [List.nil_append] at h
    rw [← h, flatMap_text_pieces hread]
  | cons p ps ih =>
    obtain ⟨t, -, ht, -⟩ := exists_of_pieces_eq_cons hread h
    exact ih ht.symm

/-- Pieces that end at some place are the pieces up to there, if each of them is read the same where
what follows is replaced. -/
theorem pieces_append_congr (hps : ps <+: pieces read? 0 (ps.flatMap Piece.text ++ r))
    (hsome : ∀ p y, read? (p.text ++ (y ++ r)) = some p → read? (p.text ++ (y ++ r')) = some p)
    (hnone : ∀ c y, c :: y <:+ ps.flatMap Piece.text →
      read? (c :: (y ++ r)) = none → read? (c :: (y ++ r')) = none) :
    pieces read? 0 (ps.flatMap Piece.text ++ r') = ps ++ pieces read? 0 r' := by
  induction ps with
  | nil => rfl
  | cons p ps ih =>
    obtain ⟨qs, hqs⟩ := hps
    rw [List.cons_append] at hqs
    rw [List.flatMap_cons, List.append_assoc] at hqs ⊢
    obtain ⟨t, ht, hrest, hp⟩ := exists_of_pieces_eq_cons hread hqs.symm
    obtain rfl := List.append_cancel_left ht
    have htail := ih ⟨qs, hrest⟩ fun c y hy =>
      hnone c y (hy.trans (by rw [List.flatMap_cons]; exact List.suffix_append _ _))
    rcases hp with hp | ⟨hp, c, rfl⟩
    · rw [pieces_of_some (hread _ p hp).1 (hsome p _ hp), htail, List.cons_append]
    · have hcode := pieces_of_none (hnone c (ps.flatMap Piece.text) List.suffix_rfl hp)
      rw [htail] at hcode
      exact hcode

end Reader

/-! ## Literals -/

/-- The search for a quote reads a beginning of the text. -/
theorem throughQuote_spec (q : Char) (s : List Char) : throughQuote q s <+: s := by
  induction s with
  | nil => exact List.prefix_rfl
  | cons c s ih =>
    rw [throughQuote]
    split
    · exact (List.prefix_cons_inj c).2 List.nil_prefix
    · exact (List.prefix_cons_inj c).2 ih

/-- The search for a quote that is not escaped reads a beginning of the text. -/
theorem throughEscapedQuote_spec (q : Char) (s : List Char) : throughEscapedQuote q s <+: s := by
  fun_induction throughEscapedQuote q s with
  | case1 => exact List.prefix_rfl
  | case2 c => exact List.prefix_rfl
  | case3 e s ih => exact (List.prefix_cons_inj _).2 ((List.prefix_cons_inj _).2 ih)
  | case4 e s hne => exact (List.prefix_cons_inj _).2 List.nil_prefix
  | case5 c e s hc hq ih => exact (List.prefix_cons_inj _).2 ih

/-- The search for a tag reads a beginning of the text. -/
theorem throughTag_spec (tag s : List Char) : throughTag tag s <+: s := by
  induction s with
  | nil => exact List.prefix_rfl
  | cons c s ih =>
    rw [throughTag]
    split
    · next h => exact List.isPrefixOf_iff_prefix.1 h
    · exact (List.prefix_cons_inj c).2 ih

/-- A dollar quote begins with a label that does not begin with a digit and a dollar sign. -/
theorem dollarTag?_eq_some_iff : dollarTag? s = some tag ↔
    ∃ label t, s = label ++ '$' :: t ∧ tag = '$' :: label ++ ['$'] ∧
      (∀ c ∈ label, isLabelChar c) ∧ label.head?.any Char.isDigit = false := by
  have hdollar : isLabelChar '$' = false := rfl
  constructor
  · intro h
    simp only [dollarTag?] at h
    split at h
    · next t ht =>
      split at h
      · cases h
      · next hdigit =>
        refine ⟨s.takeWhile isLabelChar, t, ?_, (Option.some.inj h).symm,
          fun c hc => List.mem_takeWhile_imp hc, by simpa using hdigit⟩
        rw [← ht, List.takeWhile_append_dropWhile]
    · cases h
  · rintro ⟨label, t, rfl, rfl, hlabel, hdigit⟩
    have hstop : ∀ c ∈ ('$' :: t).head?, isLabelChar c = false := by
      rintro c ⟨⟩
      exact hdollar
    simp only [dollarTag?, takeWhile_append_of_stop hlabel hstop,
      dropWhile_append_of_stop hlabel hstop, hdigit]
    rfl

/-- A literal is a quote and what follows through the next one, or a dollar quote. -/
theorem literal?_cases (h : literal? d s = some l) :
    (d = .sql ∧ ∃ q t, s = q :: t ∧ ∀ z, literal? .sql (q :: z) = some (q :: throughQuote q z)) ∨
    (d = .typeScript ∧ ∃ q t, s = q :: t ∧
      ∀ z, literal? .typeScript (q :: z) = some (q :: throughEscapedQuote q z)) ∨
    d = .sql ∧ ∃ label t, s = '$' :: (label ++ '$' :: t) ∧ dollarTag? (label ++ '$' :: t) =
      some ('$' :: label ++ ['$']) := by
  cases s with
  | nil => cases d <;> cases h
  | cons q s =>
    cases d with
    | sql =>
      rw [literal?] at h
      split at h
      · next hq => exact .inl ⟨rfl, q, s, rfl, fun z => by rw [literal?, if_pos hq]⟩
      · split at h
        · next hq =>
          obtain ⟨tag, htag, -⟩ := Option.map_eq_some_iff.1 h
          obtain ⟨label, t, rfl, rfl, -⟩ := dollarTag?_eq_some_iff.1 htag
          exact .inr (.inr ⟨rfl, label, t, by rw [hq], htag⟩)
        · cases h
    | typeScript =>
      rw [literal?] at h
      split at h
      · next hq => exact .inr (.inl ⟨rfl, q, s, rfl, fun z => by rw [literal?, if_pos hq]⟩)
      · cases h

/-- The literal of a dollar quote is its tag and what follows through the next tag. -/
theorem literal?_dollar {label : List Char}
    (h : dollarTag? (label ++ '$' :: s) = some ('$' :: label ++ ['$'])) (t : List Char) :
    literal? .sql ('$' :: (label ++ '$' :: t)) = some
      ('$' :: label ++ ['$'] ++ throughTag ('$' :: label ++ ['$']) t) := by
  obtain ⟨label', s', hs, htag, hlabel, hdigit⟩ := dollarTag?_eq_some_iff.1 h
  obtain rfl : label = label' := by simpa using htag
  have htag' : dollarTag? (label ++ '$' :: t) = some ('$' :: label ++ ['$']) :=
    dollarTag?_eq_some_iff.2 ⟨label, t, rfl, rfl, hlabel, hdigit⟩
  have hdrop : ('$' :: (label ++ '$' :: t)).drop ('$' :: label ++ ['$']).length = t := by
    have happ : '$' :: (label ++ '$' :: t) = ('$' :: label ++ ['$']) ++ t := by simp
    rw [happ, List.drop_left]
  rw [literal?, if_neg (by decide), if_pos rfl, htag', Option.map_some, hdrop]

/-- A literal is a part of the text that it was read off. -/
theorem literal?_spec (h : literal? d s = some l) : l ≠ [] ∧ l <+: s := by
  obtain ⟨rfl, q, t, rfl, hq⟩ | ⟨rfl, q, t, rfl, hq⟩ | ⟨rfl, label, t, rfl, htag⟩ :=
    literal?_cases h
  · obtain rfl := Option.some.inj ((hq t).symm.trans h)
    exact ⟨List.cons_ne_nil _ _, (List.prefix_cons_inj q).2 (throughQuote_spec q t)⟩
  · obtain rfl := Option.some.inj ((hq t).symm.trans h)
    exact ⟨List.cons_ne_nil _ _, (List.prefix_cons_inj q).2 (throughEscapedQuote_spec q t)⟩
  · obtain rfl := Option.some.inj ((literal?_dollar htag t).symm.trans h)
    have happ : '$' :: (label ++ '$' :: t) = ('$' :: label ++ ['$']) ++ t := by simp
    refine ⟨by simp, ?_⟩
    rw [happ]
    exact (List.prefix_append_right_inj _).2 (throughTag_spec _ t)

/-- A literal begins with the first symbol of the text. -/
theorem exists_cons_of_literal? (h : literal? d s = some l) (hs : s = q :: t) :
    ∃ m, l = q :: m := by
  obtain ⟨hne, hl⟩ := literal?_spec h
  obtain ⟨c, m, rfl⟩ := List.exists_cons_of_ne_nil hne
  rw [hs, List.cons_prefix_cons] at hl
  exact ⟨m, by rw [hl.1]⟩

/-- A quote that is found before the end of a text is found whatever follows. -/
theorem throughQuote_swap (h : throughQuote q (s ++ x) = s) (hx : x ≠ []) (z : List Char) :
    throughQuote q (s ++ z) = s := by
  induction s with
  | nil =>
    cases x with
    | nil => exact absurd rfl hx
    | cons c x => rw [List.nil_append, throughQuote] at h; split at h <;> cases h
  | cons c s ih =>
    simp only [List.cons_append, throughQuote] at h ⊢
    split
    · next hc => rwa [if_pos hc] at h
    · next hc =>
      rw [if_neg hc] at h
      rw [ih (List.cons.inj h).2]

/-- What is read before the end of a text ends with the first quote. -/
theorem exists_of_throughQuote (h : throughQuote q (s ++ x) = s) (hx : x ≠ []) :
    ∃ w, s = w ++ [q] ∧ q ∉ w := by
  induction s with
  | nil =>
    obtain ⟨c, x, rfl⟩ := List.exists_cons_of_ne_nil hx
    rw [List.nil_append, throughQuote] at h
    split at h <;> cases h
  | cons c s ih =>
    rw [List.cons_append, throughQuote] at h
    split at h
    · next hc =>
      obtain rfl := (List.cons.inj h).2
      exact ⟨[], by rw [hc]; rfl, List.not_mem_nil⟩
    · next hc =>
      obtain ⟨w, rfl, hw⟩ := ih (List.cons.inj h).2
      refine ⟨c :: w, rfl, fun hmem => ?_⟩
      rcases List.mem_cons.1 hmem with rfl | hmem
      · exact hc rfl
      · exact hw hmem

/-- The search for a quote that is not escaped reads something off a text. -/
theorem throughEscapedQuote_ne_nil (q : Char) (hx : x ≠ []) : throughEscapedQuote q x ≠ [] := by
  fun_cases throughEscapedQuote q x with
  | case1 => exact absurd rfl hx
  | case2 | case3 | case4 | case5 => exact List.cons_ne_nil _ _

/-- A quote that is found before the end of a text, and is not escaped, is found whatever
follows. -/
theorem throughEscapedQuote_swap (h : throughEscapedQuote q (s ++ x) = s) (hx : x ≠ [])
    (z : List Char) : throughEscapedQuote q (s ++ z) = s := by
  fun_induction throughEscapedQuote q s with
  | case1 => exact absurd h (throughEscapedQuote_ne_nil q hx)
  | case2 c =>
    obtain ⟨e, x, rfl⟩ := List.exists_cons_of_ne_nil hx
    have hne := throughEscapedQuote_ne_nil q (List.cons_ne_nil e x)
    -- A text of one symbol is a whole literal only if the symbol is the quote.
    have hc : c ≠ '\\' ∧ c = q := by
      simp only [List.cons_append, List.nil_append, throughEscapedQuote] at h
      split at h
      · cases h
      · split at h
        · exact ⟨‹_›, ‹_›⟩
        · exact absurd (List.cons.inj h).2 hne
    cases z with
    | nil => rfl
    | cons e' z =>
      rw [List.cons_append, List.nil_append, throughEscapedQuote, if_neg hc.1, if_pos hc.2]
  | case3 e s ih =>
    simp only [List.cons_append, throughEscapedQuote, if_true, List.cons.injEq, true_and] at h ⊢
    exact ih h
  | case4 e s hq => simp [throughEscapedQuote, hq] at h
  | case5 c e s hc hq ih =>
    simp only [List.cons_append, throughEscapedQuote, hc, hq, if_false, List.cons.injEq,
      true_and] at h ⊢
    exact ih h

/-- What is read before the end of a text ends with the tag. -/
theorem suffix_of_throughTag (hx : x ≠ []) (htag : tag ≠ []) (h : throughTag tag (s ++ x) = s) :
    tag <:+ s := by
  induction s with
  | nil =>
    cases x with
    | nil => exact absurd rfl hx
    | cons c x => rw [List.nil_append, throughTag] at h; split at h <;> simp_all
  | cons c s ih =>
    rw [List.cons_append, throughTag] at h
    split at h
    · exact h ▸ List.suffix_rfl
    · exact (ih (List.cons.inj h).2).trans (List.suffix_cons c s)

/-- A text that ends with the first occurrence of a tag is read up to there, whatever follows. -/
theorem throughTag_of_suffix (htag : tag ≠ []) (h : throughTag tag (s ++ x) = s) (hs : tag <:+ s)
    (z : List Char) : throughTag tag (s ++ z) = s := by
  induction s with
  | nil => exact absurd (List.eq_nil_of_suffix_nil hs) htag
  | cons c s ih =>
    rw [List.cons_append, throughTag] at h ⊢
    split at h
    · next hyes =>
      obtain rfl := h
      rw [if_pos]
      exact List.isPrefixOf_iff_prefix.2 (List.prefix_append _ _)
    · next hno =>
      rw [List.isPrefixOf_iff_prefix, ← List.cons_append] at hno
      have hrest : tag <:+ s := by
        rcases List.suffix_cons_iff.1 hs with rfl | hs
        · exact absurd (List.prefix_append _ x) hno
        · exact hs
      -- The tag ends the rest, so it is not longer, and what follows cannot complete it here.
      have hlen := hrest.length_le
      rw [if_neg, ih (List.cons.inj h).2 hrest]
      rw [List.isPrefixOf_iff_prefix, ← List.cons_append]
      intro hyes
      have hshort : tag <+: c :: s :=
        List.prefix_of_prefix_length_le hyes (List.prefix_append _ _)
          (by rw [List.length_cons]; omega)
      exact hno (hshort.trans (List.prefix_append _ _))

/-- A tag that is found before the end of a text is found whatever follows. -/
theorem throughTag_swap (htag : tag ≠ []) (h : throughTag tag (s ++ x) = s) (hx : x ≠ [])
    (z : List Char) : throughTag tag (s ++ z) = s :=
  throughTag_of_suffix htag h (suffix_of_throughTag hx htag h) z

/-- A literal that ends before the text does is read the same whatever follows. -/
theorem literal?_swap (h : literal? d (l ++ x) = some l) (hx : x ≠ []) (z : List Char) :
    literal? d (l ++ z) = some l := by
  obtain ⟨rfl, q, t, ht, hq⟩ | ⟨rfl, q, t, ht, hq⟩ | ⟨rfl, label, t, ht, htag⟩ := literal?_cases h
  · obtain ⟨m, rfl⟩ := exists_cons_of_literal? h ht
    rw [List.cons_append, hq] at h ⊢
    rw [throughQuote_swap (List.cons.inj (Option.some.inj h)).2 hx]
  · obtain ⟨m, rfl⟩ := exists_cons_of_literal? h ht
    rw [List.cons_append, hq] at h ⊢
    rw [throughEscapedQuote_swap (List.cons.inj (Option.some.inj h)).2 hx]
  · rw [ht, literal?_dollar htag] at h
    obtain ⟨rfl⟩ := h
    have hopen : ∀ u, '$' :: label ++ ['$'] ++ throughTag ('$' :: label ++ ['$']) t ++ u =
        '$' :: (label ++ '$' :: (throughTag ('$' :: label ++ ['$']) t ++ u)) := by simp
    rw [hopen] at ht ⊢
    have hbody : throughTag ('$' :: label ++ ['$']) t ++ x = t := by simpa using ht
    rw [literal?_dollar htag, throughTag_swap (by simp) (by rw [hbody]) hx]

/-- A literal of a migration that ends before the text does ends with the symbol that it begins
with. -/
theorem getLast?_of_literal? (h : literal? .sql (l ++ x) = some l) (hx : x ≠ []) :
    l.getLast? = l.head? := by
  obtain ⟨-, q, t, ht, hq⟩ | ⟨hd, -⟩ | ⟨-, label, t, ht, htag⟩ := literal?_cases h
  · obtain ⟨m, rfl⟩ := exists_cons_of_literal? h ht
    rw [List.cons_append, hq] at h
    obtain ⟨w, rfl, -⟩ := exists_of_throughQuote (List.cons.inj (Option.some.inj h)).2 hx
    rw [← List.cons_append, List.getLast?_concat]
    rfl
  · cases hd
  · rw [ht, literal?_dollar htag] at h
    obtain ⟨rfl⟩ := h
    have hbody : throughTag ('$' :: label ++ ['$']) t ++ x = t := by simpa using ht
    have hsuffix : '$' :: label ++ ['$'] <:+ throughTag ('$' :: label ++ ['$']) t :=
      suffix_of_throughTag hx (by simp) (by rw [hbody])
    obtain ⟨u, hu⟩ := hsuffix
    rw [← hu, ← List.append_assoc, ← List.append_assoc, List.getLast?_concat]
    rfl

/-- The tag of a dollar quote that ends before a symbol is read before another symbol too. -/
theorem dollarTag?_swap {e e' : Char} (he : isLabelChar e = false) (hdollar : e = '$' → e' = '$')
    (h : dollarTag? (x ++ e :: s) = some tag) (t : List Char) :
    dollarTag? (x ++ e' :: t) = some tag := by
  obtain ⟨label, u, hu, rfl, hlabel, hdigit⟩ := dollarTag?_eq_some_iff.1 h
  have hsome : ∀ v, dollarTag? (label ++ '$' :: v) = some ('$' :: label ++ ['$']) :=
    fun v => dollarTag?_eq_some_iff.2 ⟨label, v, rfl, rfl, hlabel, hdigit⟩
  rcases List.append_eq_append_iff.1 hu with ⟨m, rfl, hm⟩ | ⟨m, rfl, hm⟩
  · cases m with
    | nil =>
      rw [List.append_nil] at hsome
      rw [hdollar (List.cons.inj hm).1]
      simpa using hsome t
    | cons c m =>
      rw [List.cons_append, List.cons.injEq] at hm
      rw [hm.1, hlabel c (by simp)] at he
      cases he
  · cases m with
    | nil =>
      rw [List.append_nil, hdollar (List.cons.inj hm).1.symm]
      exact hsome t
    | cons c m =>
      rw [List.cons_append, List.cons.injEq] at hm
      rw [List.append_assoc, List.cons_append, ← hm.1]
      exact hsome _

/-- Where no literal begins, none begins in front of a text that gives no other tag. -/
theorem literal?_eq_none_of_tag (htag : ∀ tag, dollarTag? t = some tag → dollarTag? s = some tag)
    (h : literal? d (c :: s) = none) : literal? d (c :: t) = none := by
  cases d with
  | sql =>
    rw [literal?] at h ⊢
    split at h
    · cases h
    · rw [if_neg ‹_›]
      split at h
      · rw [if_pos ‹_›, Option.map_eq_none_iff, Option.eq_none_iff_forall_ne_some]
        intro tag ht
        rw [htag tag ht] at h
        cases h
      · rw [if_neg ‹_›]
  | typeScript =>
    rw [literal?] at h ⊢
    split at h
    · cases h
    · rw [if_neg ‹_›]

/-- Where no literal begins, none begins if the text from a symbol on is replaced that stands in no
label, and stays a dollar sign if it was one. -/
theorem literal?_eq_none_swap {e e' : Char} (he' : isLabelChar e' = false)
    (hdollar : e' = '$' → e = '$') (h : literal? d (c :: (x ++ e :: s)) = none) (t : List Char) :
    literal? d (c :: (x ++ e' :: t)) = none :=
  literal?_eq_none_of_tag (fun _ htag => dollarTag?_swap he' hdollar htag s) h

/-! ## Comments -/

/-- A comment on one line goes up to the end of the line. -/
theorem comment?_line (d : Dialect) (t : List Char) :
    comment? d (d.lineMark ++ t) = some (d.lineMark ++ t.takeWhile (· ≠ '\n')) := by
  cases d <;> simp [comment?, Dialect.lineMark, List.isPrefixOf]

/-- A block comment goes through its end mark. -/
theorem comment?_block (d : Dialect) (t : List Char) :
    comment? d ('/' :: '*' :: t) = some ('/' :: '*' :: throughTag ['*', '/'] t) := by
  cases d <;> simp [comment?, Dialect.lineMark, List.isPrefixOf]

/-- Whether a comment begins is told by two symbols. -/
theorem comment?_eq_none_iff_marks {e : Char} : comment? d (c :: e :: s) = none ↔
    [c, e] ≠ d.lineMark ∧ [c, e] ≠ ['/', '*'] := by
  cases d <;> simp [comment?, Dialect.lineMark, List.isPrefixOf, ite_eq_iff, @eq_comm _ c,
    @eq_comm _ e]

/-- A comment runs to the end of its line or to the mark that closes it. -/
theorem comment?_cases (h : comment? d s = some k) :
    (∃ t, s = d.lineMark ++ t ∧ k = d.lineMark ++ t.takeWhile (· ≠ '\n')) ∨
      ∃ t, s = '/' :: '*' :: t ∧ k = '/' :: '*' :: throughTag ['*', '/'] t := by
  have hs := h
  rw [comment?] at h
  split at h
  · next hmark =>
    obtain ⟨t, rfl⟩ := List.isPrefixOf_iff_prefix.1 hmark
    rw [comment?_line] at hs
    exact .inl ⟨t, rfl, (Option.some.inj hs).symm⟩
  · split at h
    · next hmark =>
      obtain ⟨t, rfl⟩ := List.isPrefixOf_iff_prefix.1 hmark
      exact .inr ⟨t, rfl, (Option.some.inj h).symm⟩
    · cases h

/-- A comment is a part of the text that it was read off. -/
theorem comment?_spec (h : comment? d s = some k) : k ≠ [] ∧ k <+: s := by
  obtain ⟨t, rfl, rfl⟩ | ⟨t, rfl, rfl⟩ := comment?_cases h
  · exact ⟨by cases d <;> exact List.cons_ne_nil _ _,
      (List.prefix_append_right_inj _).2 (List.takeWhile_prefix _)⟩
  · exact ⟨List.cons_ne_nil _ _,
      (List.prefix_append_right_inj ['/', '*']).2 (throughTag_spec _ t)⟩

/-- A comment begins with a symbol that begins no literal. -/
theorem literal?_of_comment? (h : comment? d s = some k) (z : List Char) :
    literal? d (k ++ z) = none := by
  obtain ⟨t, -, rfl⟩ | ⟨t, -, rfl⟩ := comment?_cases h
  · cases d <;> simp [literal?, Dialect.lineMark]
  · cases d <;> simp [literal?]

/-- A comment that ends before the text does is read the same whatever follows, if the end of a line
stays one. -/
theorem comment?_swap (h : comment? d (k ++ x) = some k) (hx : x ≠ [])
    (hz : x.head? = some '\n' → z.head? = some '\n') : comment? d (k ++ z) = some k := by
  obtain ⟨t, ht, rfl⟩ | ⟨t, ht, rfl⟩ := comment?_cases h
  · have hrest : t.takeWhile (· ≠ '\n') ++ x = t := by simpa using ht
    have hnl : x = t.dropWhile (· ≠ '\n') :=
      List.append_cancel_left (hrest.trans List.takeWhile_append_dropWhile.symm)
    have hhead : z.head? = some '\n' := by
      refine hz ?_
      obtain ⟨c, x, rfl⟩ := List.exists_cons_of_ne_nil hx
      have hc := List.head?_dropWhile_not (· ≠ '\n') t
      rw [← hnl] at hc
      simpa using hc
    have hstop : ∀ c ∈ z.head?, decide (c ≠ '\n') = false := by
      rw [hhead]
      rintro c ⟨⟩
      rfl
    have hrun : ∀ c ∈ t.takeWhile (· ≠ '\n'), decide (c ≠ '\n') = true :=
      fun _ hc => List.mem_takeWhile_imp (p := fun c => decide (c ≠ '\n')) hc
    rw [List.append_assoc, comment?_line, takeWhile_append_of_stop hrun hstop]
  · have hrest : throughTag ['*', '/'] t ++ x = t := by simpa using ht
    rw [List.cons_append, List.cons_append, comment?_block,
      throughTag_swap (by simp) (by rw [hrest]) hx]

/-! ## Pieces of a text -/

/-- A literal that is read is a beginning of the text, and not empty. -/
theorem literalReader_spec (s : List Char) (p : Piece) (h : (literal? d s).map .literal = some p) :
    p.text ≠ [] ∧ p.text <+: s := by
  obtain ⟨l, hl, rfl⟩ := Option.map_eq_some_iff.1 h
  exact literal?_spec hl

/-- What is read as literal or comment is one of the two. -/
theorem commentReader_cases
    (h : ((literal? d s).map Piece.literal).or ((comment? d s).map .comment) = some p) :
    (∃ l, p = .literal l ∧ literal? d s = some l) ∨
      ∃ k, p = .comment k ∧ comment? d s = some k := by
  cases hl : literal? d s with
  | some l =>
    rw [hl] at h
    exact .inl ⟨l, (Option.some.inj h).symm, rfl⟩
  | none =>
    rw [hl] at h
    obtain ⟨k, hk, rfl⟩ := Option.map_eq_some_iff.1 h
    exact .inr ⟨k, rfl, hk⟩

/-- A literal or a comment that is read is a beginning of the text, and not empty. -/
theorem commentReader_spec (s : List Char) (p : Piece)
    (h : ((literal? d s).map Piece.literal).or ((comment? d s).map .comment) = some p) :
    p.text ≠ [] ∧ p.text <+: s := by
  obtain ⟨l, rfl, hl⟩ | ⟨k, rfl, hk⟩ := commentReader_cases h
  · exact literal?_spec hl
  · exact comment?_spec hk

/-- A text is made of its pieces of code and literals. -/
theorem flatMap_text_codePieces (x : List Char) : (codePieces d x).flatMap Piece.text = x :=
  flatMap_text_pieces literalReader_spec x

/-- A text is made of all its pieces. -/
theorem flatMap_text_allPieces (x : List Char) : (allPieces d x).flatMap Piece.text = x :=
  flatMap_text_pieces commentReader_spec x

/-- Where no literal begins, a symbol is code. -/
theorem codePieces_of_none (h : literal? d (c :: s) = none) :
    codePieces d (c :: s) = .code c :: codePieces d s :=
  pieces_of_none (by rw [h]; rfl)

/-- A literal at the head of a text is its first piece. -/
theorem codePieces_of_literal (h : literal? d (l ++ t) = some l) :
    codePieces d (l ++ t) = .literal l :: codePieces d t :=
  pieces_of_some (p := .literal l) (literal?_spec h).1 (by rw [Piece.text, h]; rfl)

/-- Where neither a literal nor a comment begins, a symbol is code. -/
theorem allPieces_of_none (hl : literal? d (c :: s) = none) (hk : comment? d (c :: s) = none) :
    allPieces d (c :: s) = .code c :: allPieces d s :=
  pieces_of_none (by rw [hl, hk]; rfl)

/-- A literal at the head of a text is its first piece, comments included. -/
theorem allPieces_of_literal (h : literal? d (l ++ t) = some l) :
    allPieces d (l ++ t) = .literal l :: allPieces d t :=
  pieces_of_some (p := .literal l) (literal?_spec h).1 (by rw [Piece.text, h]; rfl)

/-- A comment at the head of a text is its first piece. -/
theorem allPieces_of_comment (h : comment? d (k ++ t) = some k) :
    allPieces d (k ++ t) = .comment k :: allPieces d t :=
  pieces_of_some (p := .comment k) (comment?_spec h).1
    (by rw [Piece.text, literal?_of_comment? h, h]; rfl)

/-- The pieces of a text that end at some place are its pieces up to there if what follows is
replaced: neither text that follows goes on a label, both or none begin with a dollar sign, the
first does not end a line, and the second completes no comment mark that the first does not. -/
theorem allPieces_append_congr {e e' : Char} {t t' : List Char}
    (hps : ps <+: allPieces d (ps.flatMap Piece.text ++ e :: t)) (hline : e ≠ '\n')
    (he' : isLabelChar e' = false) (hdollar : e' = '$' → e = '$')
    (hmark : ∀ c ∈ (ps.flatMap Piece.text).getLast?,
      comment? d (c :: e :: t) = none → comment? d (c :: e' :: t') = none) :
    allPieces d (ps.flatMap Piece.text ++ e' :: t') = ps ++ allPieces d (e' :: t') := by
  refine pieces_append_congr commentReader_spec hps (fun p y hp => ?_) (fun c y hy hnone => ?_)
  · obtain ⟨l, rfl, hl⟩ | ⟨k, rfl, hk⟩ := commentReader_cases hp
    · have hl' : literal? d (l ++ (y ++ e' :: t')) = some l := literal?_swap hl (by simp) _
      rw [Piece.text, hl']
      rfl
    · have hk' : comment? d (k ++ (y ++ e' :: t')) = some k := by
        refine comment?_swap hk (by simp) fun hhead => ?_
        cases y with
        | nil => exact absurd (Option.some.inj hhead) hline
        | cons c y => exact hhead
      rw [Piece.text, literal?_of_comment? hk', hk']
      rfl
  · rw [Option.or_eq_none_iff, Option.map_eq_none_iff, Option.map_eq_none_iff] at hnone ⊢
    refine ⟨literal?_eq_none_swap he' hdollar hnone.1 t', ?_⟩
    cases y with
    | nil =>
      obtain ⟨u, hu⟩ := hy
      exact hmark c (by rw [← hu]; simp) hnone.2
    | cons b y => exact comment?_eq_none_iff_marks.2 (comment?_eq_none_iff_marks.1 hnone.2)

end SchemaDrift.Scan
