import SchemaDrift.Proofs.Scan.Pieces

/-!
# Where literals end

A literal begins with a delimiter (`Delimits`): a quote, or in SQL the tag of a dollar quote. It is
closed where the delimiter stands again, in TypeScript not behind an odd run of backslashes
(`ClosesBehind`). A literal is read through the first place that closes it, and to the end of the
text if there is none (`ReadsThrough`). By offsets, `literalEnd?` gives the end of the literal that
begins at an offset; it is behind the offset and not behind the end of the text
(`literalEnd?_advances`), and it is the first place that closes the literal (`literalEnd?_proper`).
-/

namespace SchemaDrift.Scan

variable {d : Dialect} {q c e : Char} {s t x l delim body : List Char}

/-! ## Delimiters and closes -/

/-- What a literal may begin with: a quote, or in SQL the tag of a dollar quote, whose label does
not begin with a digit. -/
inductive Delimits : Dialect → List Char → Prop
  | single (d : Dialect) : Delimits d ['\'']
  | double (d : Dialect) : Delimits d ['"']
  | template : Delimits .typeScript ['`']
  | tag {label : List Char} (hlabel : ∀ c ∈ label, isLabelChar c)
      (hdigit : label.head?.any Char.isDigit = false) : Delimits .sql ('$' :: label ++ ['$'])

/-- The number of backslashes that a text ends with. -/
def trailingBackslashes (x : List Char) : Nat :=
  (x.reverse.takeWhile (· == '\\')).length

/-- In the text behind an opening delimiter, the literal is closed behind its body: the delimiter
stands there again, and in TypeScript no odd run of backslashes escapes it. -/
structure ClosesBehind (d : Dialect) (delim t body : List Char) : Prop where
  again : body ++ delim <+: t
  unescaped : d = .typeScript → trailingBackslashes body % 2 = 0

/-- What is read of the text behind an opening delimiter: all through the first place that closes
the literal, or the whole text if nothing closes it. -/
inductive ReadsThrough (d : Dialect) (delim t : List Char) : List Char → Prop
  | closed {body : List Char} (hclose : ClosesBehind d delim t body)
      (hfirst : ∀ body', ClosesBehind d delim t body' → body.length ≤ body'.length) :
      ReadsThrough d delim t (body ++ delim)
  | unclosed (hnone : ∀ body, ¬ ClosesBehind d delim t body) : ReadsThrough d delim t t

/-- A delimiter has a symbol. -/
theorem Delimits.ne_nil (h : Delimits d delim) : delim ≠ [] := by
  cases h <;> exact List.cons_ne_nil _ _

/-- A text that begins with the delimiter is read through it. -/
theorem ReadsThrough.of_delimiter (h : delim <+: t) : ReadsThrough d delim t delim := by
  have hclose : ClosesBehind d delim t [] := ⟨h, fun _ => rfl⟩
  exact .closed hclose fun _ _ => Nat.zero_le _

/-- Symbols inside which the literal is not closed are read before what is read behind them. -/
theorem ReadsThrough.append (h : ReadsThrough d delim t l)
    (hx : ∀ body, ClosesBehind d delim (x ++ t) body →
      ∃ body', body = x ++ body' ∧ ClosesBehind d delim t body')
    (hkeep : ∀ body, ClosesBehind d delim t body → ClosesBehind d delim (x ++ t) (x ++ body)) :
    ReadsThrough d delim (x ++ t) (x ++ l) := by
  cases h with
  | @closed body hclose hfirst =>
    rw [← List.append_assoc]
    refine .closed (hkeep body hclose) fun body' hbody' => ?_
    obtain ⟨body', rfl, hclose'⟩ := hx body' hbody'
    have hle := hfirst body' hclose'
    simp only [List.length_append]
    omega
  | unclosed hnone =>
    refine .unclosed fun body hbody => ?_
    obtain ⟨body', -, hclose⟩ := hx body hbody
    exact hnone body' hclose

/-! ## Quotes and tags -/

/-- A close behind a nonempty body begins with the first symbol of the text. -/
theorem ClosesBehind.cons_cases (h : ClosesBehind d delim (c :: t) body) :
    body = [] ∧ delim <+: c :: t ∨ ∃ body', body = c :: body' ∧ body' ++ delim <+: t := by
  cases body with
  | nil => exact .inl ⟨rfl, h.again⟩
  | cons e body =>
    have hagain := h.again
    rw [List.cons_append, List.cons_prefix_cons] at hagain
    exact .inr ⟨body, by rw [hagain.1], hagain.2⟩

/-- A dollar quote is read through the first occurrence of its tag. -/
theorem readsThrough_throughTag {tag : List Char} (htag : tag ≠ []) (t : List Char) :
    ReadsThrough .sql tag t (throughTag tag t) := by
  induction t with
  | nil =>
    refine .unclosed fun body hbody => htag ?_
    exact (List.append_eq_nil_iff.1 (List.prefix_nil.1 hbody.again)).2
  | cons c t ih =>
    rw [throughTag]
    split
    · next hyes => exact .of_delimiter (List.isPrefixOf_iff_prefix.1 hyes)
    · next hno =>
      rw [List.isPrefixOf_iff_prefix] at hno
      refine ih.append (x := [c]) (fun body hbody => ?_) fun body hbody => ?_
      · obtain ⟨-, hhere⟩ | ⟨body', rfl, hagain⟩ := hbody.cons_cases
        · exact absurd hhere hno
        · exact ⟨body', rfl, hagain, fun hd => by cases hd⟩
      · exact ⟨(List.prefix_cons_inj c).2 hbody.again, fun hd => by cases hd⟩

/-- A quote is searched for like a tag of one symbol. -/
theorem throughQuote_eq_throughTag (q : Char) (t : List Char) :
    throughQuote q t = throughTag [q] t := by
  induction t with
  | nil => rfl
  | cons c t ih =>
    have hprefix : [q].isPrefixOf (c :: t) = (q == c) := by simp [List.isPrefixOf]
    rw [throughQuote, throughTag, hprefix, ih]
    by_cases hc : c = q
    · simp [hc]
    · simp [hc, Ne.symm hc]

/-! ## Escapes -/

/-- A text ends with at most as many backslashes as it has symbols. -/
theorem trailingBackslashes_le_length (x : List Char) : trailingBackslashes x ≤ x.length := by
  have hle := (List.takeWhile_prefix (· == '\\') (l := x.reverse)).length_le
  rwa [List.length_reverse] at hle

/-- A symbol counts if it is a backslash with nothing but backslashes behind it. -/
theorem trailingBackslashes_cons (c : Char) (x : List Char) : trailingBackslashes (c :: x) =
    trailingBackslashes x + if c = '\\' ∧ trailingBackslashes x = x.length then 1 else 0 := by
  rw [trailingBackslashes, List.reverse_cons, List.takeWhile_append, List.length_reverse]
  by_cases hfull : (x.reverse.takeWhile (· == '\\')).length = x.length
  · rw [if_pos hfull, List.length_append, List.length_reverse, ← hfull]
    by_cases hc : c = '\\' <;> simp [trailingBackslashes, hc, hfull]
  · simp [trailingBackslashes, hfull]

/-- A symbol other than a backslash at the front does not count among the backslashes at the end. -/
theorem trailingBackslashes_cons_of_ne (hc : c ≠ '\\') (x : List Char) :
    trailingBackslashes (c :: x) = trailingBackslashes x := by
  rw [trailingBackslashes_cons, if_neg fun h => hc h.1, Nat.add_zero]

/-- An escape and the symbol that it escapes do not change which symbols behind them are escaped. -/
theorem trailingBackslashes_escape (e : Char) (x : List Char) :
    trailingBackslashes ('\\' :: e :: x) % 2 = trailingBackslashes x % 2 := by
  have hle := trailingBackslashes_le_length x
  rw [trailingBackslashes_cons, trailingBackslashes_cons, List.length_cons]
  by_cases hfull : e = '\\' ∧ trailingBackslashes x = x.length
  · rw [if_pos hfull, if_pos ⟨rfl, by rw [hfull.2]⟩]
    omega
  · rw [if_neg hfull, if_neg fun h => by omega, Nat.add_zero]

/-- A literal with escapes is read through the first quote that an even number of backslashes
precedes. -/
theorem readsThrough_throughEscapedQuote (hq : q ≠ '\\') (t : List Char) :
    ReadsThrough .typeScript [q] t (throughEscapedQuote q t) := by
  fun_induction throughEscapedQuote q t with
  | case1 =>
    refine .unclosed fun body hbody => ?_
    exact absurd (List.prefix_nil.1 hbody.again) (List.append_ne_nil_of_right_ne_nil _ (by simp))
  | case2 c =>
    by_cases hc : c = q
    · rw [hc]
      exact .of_delimiter List.prefix_rfl
    · refine .unclosed fun body hbody => ?_
      obtain ⟨-, hhere⟩ | ⟨body', rfl, hagain⟩ := hbody.cons_cases
      · exact hc (List.cons_prefix_cons.1 hhere).1.symm
      · exact absurd (List.prefix_nil.1 hagain) (List.append_ne_nil_of_right_ne_nil _ (by simp))
  | case3 e t ih =>
    -- Closes behind the two symbols are closes of what follows them; the second one is escaped.
    refine ih.append (x := ['\\', e]) (fun body hbody => ?_) fun body hbody => ?_
    · have heven := hbody.unescaped rfl
      obtain ⟨-, hhere⟩ | ⟨body', rfl, hagain⟩ := hbody.cons_cases
      · exact absurd (List.cons_prefix_cons.1 hhere).1 hq
      · cases body' with
        | nil => exact absurd heven (by decide)
        | cons c body' =>
          obtain ⟨rfl, hrest⟩ := List.cons_prefix_cons.1 hagain
          rw [trailingBackslashes_escape] at heven
          exact ⟨body', rfl, hrest, fun _ => heven⟩
    · refine ⟨?_, fun hd => ?_⟩
      · exact (List.prefix_append_right_inj ['\\', e]).2 hbody.again
      · exact (trailingBackslashes_escape e body).trans (hbody.unescaped hd)
  | case4 e t hesc => exact .of_delimiter ((List.prefix_cons_inj q).2 List.nil_prefix)
  | case5 c e t hesc hc ih =>
    refine ih.append (x := [c]) (fun body hbody => ?_) fun body hbody => ?_
    · have heven := hbody.unescaped rfl
      obtain ⟨-, hhere⟩ | ⟨body', rfl, hagain⟩ := hbody.cons_cases
      · exact absurd (List.cons_prefix_cons.1 hhere).1.symm hc
      · rw [trailingBackslashes_cons_of_ne hesc] at heven
        exact ⟨body', rfl, hagain, fun _ => heven⟩
    · refine ⟨(List.prefix_cons_inj c).2 hbody.again, fun hd => ?_⟩
      exact (congrArg (· % 2) (trailingBackslashes_cons_of_ne hesc body)).trans
        (hbody.unescaped hd)

/-! ## Literals -/

/-- A literal is its delimiter and what is read through the first place that closes it. -/
theorem exists_of_literal? (h : literal? d s = some l) : ∃ delim t m, Delimits d delim ∧
    s = delim ++ t ∧ l = delim ++ m ∧ ReadsThrough d delim t m := by
  cases s with
  | nil => cases d <;> cases h
  | cons q s =>
    cases d with
    | sql =>
      rw [literal?] at h
      split at h
      · next hq =>
        cases h
        refine ⟨[q], s, throughQuote q s, ?_, rfl, rfl, ?_⟩
        · obtain rfl | rfl := hq
          · exact .single _
          · exact .double _
        · rw [throughQuote_eq_throughTag]
          exact readsThrough_throughTag (List.cons_ne_nil _ _) s
      · split at h
        · next hq =>
          obtain ⟨tag, htag, rfl⟩ := Option.map_eq_some_iff.1 h
          obtain ⟨label, t, rfl, rfl, hlabel, hdigit⟩ := dollarTag?_eq_some_iff.1 htag
          have hsplit : q :: (label ++ '$' :: t) = '$' :: label ++ ['$'] ++ t := by simp [hq]
          refine ⟨_, t, _, .tag hlabel hdigit, hsplit, rfl, ?_⟩
          rw [hsplit, List.drop_left]
          exact readsThrough_throughTag (by simp) t
        · cases h
    | typeScript =>
      rw [literal?] at h
      split at h
      · next hq =>
        cases h
        have hesc : q ≠ '\\' := by
          rintro rfl
          simp at hq
        refine ⟨[q], s, throughEscapedQuote q s, ?_, rfl, rfl,
          readsThrough_throughEscapedQuote hesc s⟩
        obtain rfl | rfl | rfl := hq
        · exact .single _
        · exact .double _
        · exact .template
      · cases h

/-- A literal begins with each delimiter. -/
theorem Delimits.literal?_isSome (h : Delimits d delim) (t : List Char) :
    (literal? d (delim ++ t)).isSome := by
  cases h with
  | single => cases d <;> rfl
  | double => cases d <;> rfl
  | template => rfl
  | @tag label hlabel hdigit =>
    have htag : dollarTag? (label ++ '$' :: t) = some ('$' :: label ++ ['$']) :=
      dollarTag?_eq_some_iff.2 ⟨label, t, rfl, rfl, hlabel, hdigit⟩
    have hsplit : '$' :: label ++ ['$'] ++ t = '$' :: (label ++ '$' :: t) := by simp
    rw [hsplit, literal?_dollar htag]
    rfl

/-! ## Offsets -/

/-- The offset of the end of the literal that begins at an offset. -/
def literalEnd? (d : Dialect) (s : List Char) (start : Nat) : Option Nat :=
  (literal? d (s.drop start)).map fun l => start + l.length

/-- A literal that begins with a delimiter at an offset is closed at another: the offset behind the
delimiter that stands there again. -/
def ClosesAt (d : Dialect) (delim s : List Char) (start stop : Nat) : Prop :=
  ∃ body, ClosesBehind d delim (s.drop (start + delim.length)) body ∧
    stop = start + delim.length + (body ++ delim).length

/-- A literal that begins with a delimiter at an offset ends at another: it is closed there and not
before, or it is never closed and that is the end of the text. -/
inductive EndsProperly (d : Dialect) (delim s : List Char) (start : Nat) : Nat → Prop
  | closed {stop : Nat} (hclose : ClosesAt d delim s start stop)
      (hfirst : ∀ stop' < stop, ¬ ClosesAt d delim s start stop') :
      EndsProperly d delim s start stop
  | unclosed (hnone : ∀ stop, ¬ ClosesAt d delim s start stop) :
      EndsProperly d delim s start s.length

/-- The end of a literal is behind its beginning and not behind the end of the text. -/
theorem literalEnd?_advances {start stop : Nat} (h : literalEnd? d s start = some stop) :
    start < stop ∧ stop ≤ s.length := by
  obtain ⟨l, hl, rfl⟩ := Option.map_eq_some_iff.1 h
  obtain ⟨hne, hprefix⟩ := literal?_spec hl
  have hpos := List.length_pos_iff.2 hne
  have hle := hprefix.length_le
  rw [List.length_drop] at hle
  omega

/-- A literal ends at the first place that closes it, or at the end of the text. -/
theorem literalEnd?_proper {start stop : Nat} (h : literalEnd? d s start = some stop) :
    ∃ delim, Delimits d delim ∧ delim <+: s.drop start ∧ EndsProperly d delim s start stop := by
  obtain ⟨l, hl, rfl⟩ := Option.map_eq_some_iff.1 h
  obtain ⟨delim, t, m, hdelim, hs, rfl, hread⟩ := exists_of_literal? hl
  have ht : s.drop (start + delim.length) = t := by
    rw [← List.drop_drop, hs, List.drop_left]
  refine ⟨delim, hdelim, hs ▸ List.prefix_append _ _, ?_⟩
  rw [List.length_append, ← Nat.add_assoc]
  cases hread with
  | @closed body hclose hfirst =>
    refine .closed ⟨body, ht.symm ▸ hclose, rfl⟩ ?_
    rintro stop' hlt ⟨body', hclose', rfl⟩
    have hle := hfirst body' (ht ▸ hclose')
    simp only [List.length_append] at hlt
    omega
  | unclosed hnone =>
    have hlength : start + delim.length + t.length = s.length := by
      have hdrop := congrArg List.length hs
      have hpos := List.length_pos_iff.2 hdelim.ne_nil
      rw [List.length_drop, List.length_append] at hdrop
      omega
    rw [hlength]
    refine .unclosed ?_
    rintro stop ⟨body, hclose, -⟩
    exact hnone body (ht ▸ hclose)

/-- No literal begins where no delimiter stands. -/
theorem literalEnd?_eq_none_iff {start : Nat} : literalEnd? d s start = none ↔
    ∀ delim, Delimits d delim → ¬ delim <+: s.drop start := by
  constructor
  · rintro h delim hdelim ⟨t, ht⟩
    have hsome := hdelim.literal?_isSome t
    rw [ht, Option.map_eq_none_iff.1 h] at hsome
    cases hsome
  · intro h
    cases hstop : literalEnd? d s start with
    | none => rfl
    | some stop =>
      obtain ⟨delim, hdelim, hprefix, -⟩ := literalEnd?_proper hstop
      exact absurd hprefix (h delim hdelim)

end SchemaDrift.Scan
