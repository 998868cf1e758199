import SchemaDrift.Proofs.Scan.Literals

/-!
# Closed texts

A literal is closed if it ends with what ends a literal of its kind (`closesLiteral`). Closed
literals are read the same whatever follows (`literal?_of_closesLiteral`). A text whose
literals are all closed falls into the same pieces in front of any symbol that stands in no tag of a
dollar quote (`codePieces_append_of_closed`), so texts that are put together with such symbols
between them are scanned one after another.
-/

namespace SchemaDrift.Scan

variable {d : Dialect} {q c e : Char} {l s x tag : List Char}

/-! ## Closed literals -/

/-- Whether a literal ends with what closes it: the quote that it begins with, which no backslash
escapes in TypeScript, or the tag of a dollar quote. -/
def closesLiteral : Dialect → List Char → Bool
  | _, [] => false
  | .sql, q :: s =>
    if q = '$' then (dollarTag? s).any fun tag => tag.isSuffixOf ((q :: s).drop tag.length)
    else s.getLast? == some q
  | .typeScript, q :: s => endsLiteral q s

/-- A literal that ends with its quote ends there whatever follows. -/
theorem throughQuote_of_getLast? (h : throughQuote q (s ++ x) = s) (hs : s.getLast? = some q)
    (z : List Char) : throughQuote q (s ++ z) = s := by
  induction s with
  | nil => cases hs
  | cons c s ih =>
    rw [List.cons_append, throughQuote] at h ⊢
    split at h
    · next hc => rwa [if_pos hc]
    · next hc =>
      have hlast : s.getLast? = some q := by
        cases s with
        | nil => exact absurd (by simpa using hs) hc
        | cons e s => simpa using hs
      rw [if_neg hc, ih (List.cons.inj h).2 hlast]

/-- A dollar quote is closed if its tag stands at its end again. -/
theorem closesLiteral_dollar {label t : List Char}
    (htag : dollarTag? (label ++ '$' :: t) = some ('$' :: label ++ ['$'])) (body : List Char) :
    closesLiteral .sql ('$' :: label ++ ['$'] ++ body) ↔ '$' :: label ++ ['$'] <:+ body := by
  have hopen : '$' :: label ++ ['$'] ++ body = '$' :: (label ++ '$' :: body) := by simp
  have hdrop : ('$' :: label ++ ['$'] ++ body).drop ('$' :: label ++ ['$']).length = body :=
    List.drop_left
  rw [hopen] at hdrop ⊢
  rw [closesLiteral, if_pos rfl, dollarTag?_swap (by decide) id htag, Option.any_some, hdrop,
    List.isSuffixOf_iff_suffix]

/-- A closed literal is read the same whatever follows. -/
theorem literal?_of_closesLiteral (h : literal? d (l ++ x) = some l) (hl : closesLiteral d l)
    (z : List Char) : literal? d (l ++ z) = some l := by
  obtain ⟨rfl, q, t, ht, hq⟩ | ⟨rfl, q, t, ht, hq⟩ | ⟨rfl, label, t, ht, htag⟩ := literal?_cases h
  · obtain ⟨m, rfl⟩ := exists_cons_of_literal? h ht
    have hne : q ≠ '$' := by
      rintro rfl
      cases hq []
    rw [closesLiteral, if_neg hne, beq_iff_eq] at hl
    rw [List.cons_append, hq] at h ⊢
    rw [throughQuote_of_getLast? (List.cons.inj (Option.some.inj h)).2 hl]
  · obtain ⟨m, rfl⟩ := exists_cons_of_literal? h ht
    have hne : q ≠ '\\' := by
      rintro rfl
      cases hq []
    rw [List.cons_append, hq, throughEscapedQuote_append hne hl]
  · rw [ht, literal?_dollar htag] at h
    obtain ⟨rfl⟩ := h
    have hopen : ∀ u, '$' :: label ++ ['$'] ++ throughTag ('$' :: label ++ ['$']) t ++ u =
        '$' :: (label ++ '$' :: (throughTag ('$' :: label ++ ['$']) t ++ u)) := by simp
    have hbody : throughTag ('$' :: label ++ ['$']) t ++ x = t := by
      rw [hopen] at ht
      simpa using ht
    rw [closesLiteral_dollar htag] at hl
    rw [hopen, literal?_dollar htag, throughTag_of_suffix (by simp) (by rw [hbody]) hl]

/-- A literal with escapes that ends before the text does ends with its quote. -/
theorem endsLiteral_of_throughEscapedQuote (h : throughEscapedQuote q (s ++ x) = s)
    (hx : x ≠ []) : endsLiteral q s := by
  fun_induction endsLiteral q s with
  | case1 => exact absurd h (throughEscapedQuote_ne_nil q hx)
  | case2 c =>
    obtain ⟨e, x, rfl⟩ := List.exists_cons_of_ne_nil hx
    simp only [List.cons_append, List.nil_append, throughEscapedQuote] at h
    split at h
    · cases h
    · split at h
      · next hc => exact beq_iff_eq.2 hc
      · exact absurd (List.cons.inj h).2 (throughEscapedQuote_ne_nil q (List.cons_ne_nil e x))
  | case3 e s ih =>
    simp only [List.cons_append, throughEscapedQuote, if_true, List.cons.injEq, true_and] at h
    exact ih h
  | case4 c e s hesc ih =>
    rw [List.cons_append, List.cons_append, throughEscapedQuote, if_neg hesc] at h
    split at h
    · cases h
    · next hc =>
      rw [Bool.and_eq_true, bne_iff_ne]
      exact ⟨hc, ih (List.cons.inj h).2⟩

/-- A literal that ends before the text does is closed. -/
theorem closesLiteral_of_literal? (h : literal? d (l ++ x) = some l) (hx : x ≠ []) :
    closesLiteral d l := by
  obtain ⟨rfl, q, t, ht, hq⟩ | ⟨rfl, q, t, ht, hq⟩ | ⟨rfl, label, t, ht, htag⟩ := literal?_cases h
  · obtain ⟨m, rfl⟩ := exists_cons_of_literal? h ht
    have hne : q ≠ '$' := by
      rintro rfl
      cases hq []
    rw [List.cons_append, hq] at h
    obtain ⟨w, rfl, -⟩ := exists_of_throughQuote (List.cons.inj (Option.some.inj h)).2 hx
    rw [closesLiteral, if_neg hne, List.getLast?_concat, beq_iff_eq]
  · obtain ⟨m, rfl⟩ := exists_cons_of_literal? h ht
    rw [List.cons_append, hq] at h
    exact endsLiteral_of_throughEscapedQuote (List.cons.inj (Option.some.inj h)).2 hx
  · rw [ht, literal?_dollar htag] at h
    obtain ⟨rfl⟩ := h
    have hbody : throughTag ('$' :: label ++ ['$']) t ++ x = t := by simpa using ht
    rw [closesLiteral_dollar htag]
    exact suffix_of_throughTag hx (by simp) (by rw [hbody])

/-! ## Texts of closed literals -/

/-- Whether a piece is no literal that is not closed. -/
def Piece.isClosed (d : Dialect) : Piece → Bool
  | literal l => closesLiteral d l
  | _ => true

/-- Whether all literals of a text are closed. -/
def literalsClosed (d : Dialect) (x : List Char) : Bool :=
  (codePieces d x).all (Piece.isClosed d)

/-- The tag of a dollar quote lies before a symbol that stands in no tag. -/
theorem dollarTag?_of_append (he : isLabelChar e = false) (hdollar : e ≠ '$')
    (h : dollarTag? (x ++ e :: s) = some tag) : dollarTag? x = some tag := by
  obtain ⟨label, u, hu, rfl, hlabel, hdigit⟩ := dollarTag?_eq_some_iff.1 h
  rcases List.append_eq_append_iff.1 hu with ⟨m, rfl, hm⟩ | ⟨m, rfl, hm⟩
  · cases m with
    | nil => exact absurd (List.cons.inj hm).1 hdollar
    | cons c m =>
      rw [List.cons_append, List.cons.injEq] at hm
      rw [hm.1, hlabel c (by simp)] at he
      cases he
  · cases m with
    | nil => exact absurd (List.cons.inj hm).1.symm hdollar
    | cons c m =>
      rw [List.cons_append, List.cons.injEq] at hm
      rw [← hm.1]
      exact dollarTag?_eq_some_iff.2 ⟨label, m, rfl, rfl, hlabel, hdigit⟩

/-- A text of closed literals falls into the same pieces in front of a symbol that stands in no
tag. -/
theorem codePieces_append_of_closed (hx : literalsClosed d x) (he : isLabelChar e = false)
    (hdollar : e ≠ '$') (t : List Char) :
    codePieces d (x ++ e :: t) = codePieces d x ++ codePieces d (e :: t) := by
  rw [literalsClosed, List.all_eq_true] at hx
  generalize hps : codePieces d x = ps at hx ⊢
  induction ps generalizing x with
  | nil =>
    have hnil := flatMap_text_codePieces (d := d) x
    rw [hps] at hnil
    rw [← hnil]
    rfl
  | cons p ps ih =>
    obtain ⟨s, rfl, hs, hp⟩ := exists_of_pieces_eq_cons literalReader_spec hps
    rw [List.forall_mem_cons] at hx
    have hrest := ih hs.symm hx.2
    rw [List.append_assoc, List.cons_append, ← hrest]
    rcases hp with hp | ⟨hp, c, rfl⟩
    · obtain ⟨l, hl, rfl⟩ := Option.map_eq_some_iff.1 hp
      exact codePieces_of_literal (literal?_of_closesLiteral hl hx.1 _)
    · have hnone := Option.map_eq_none_iff.1 hp
      exact codePieces_of_none
        (literal?_eq_none_of_tag (fun _ htag => dollarTag?_of_append he hdollar htag) hnone)

end SchemaDrift.Scan
