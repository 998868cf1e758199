import SchemaDrift.Proofs.Migration.Body
import SchemaDrift.Proofs.Migration.LiteralReferences

/-!
# References in the clauses of a table

The clause of a reference is found twice: forwards, when the body of a table is split, and
backwards from the reference. The backward search knows parentheses, commas and semicolons, but
neither literals nor other brackets. It undoes counting forwards (`clauseBackwards_of_parensAfter`),
so it ends where the clause begins exactly if, literals included, the parentheses before the
reference match and no comma or semicolon stands outside them (`clauseBackwards_eq_iff`). Then the
reference belongs to the column that the clause declares (`clauseReference_recorded`).
-/

namespace SchemaDrift.Migration

open SchemaDrift.Text SchemaDrift.Scan Phrase

variable {β γ : Type} {c d : Char} {j k n : Nat} {s w sql rest : List Char} {i : Identifier}

/-! ## The search for the beginning of a clause -/

/-- The number of parentheses open behind a symbol, unless it closes one that is not open, or is a
comma or a semicolon outside all of them. -/
def parenStep (depth : Nat) (c : Char) : Option Nat :=
  if c = '(' then some (depth + 1)
  else if c = ')' then if depth = 0 then none else some (depth - 1)
  else if (c = ',' ∨ c = ';') ∧ depth = 0 then none
  else some depth

/-- The number of parentheses open behind a text whose symbols are all read as code. -/
def parensAfter (depth : Nat) (s : List Char) : Option Nat :=
  s.foldlM parenStep depth

/-- One more symbol changes the number of open parentheses by its step. -/
theorem parensAfter_concat : parensAfter n (w ++ [c]) = some k ↔
    ∃ j, parensAfter n w = some j ∧ parenStep j c = some k := by
  rw [parensAfter, List.foldlM_append]
  simp [parensAfter, Option.bind_eq_some_iff]

/-- The search undoes a step. -/
theorem clauseBackwards_of_parenStep (h : parenStep j c = some k) (s : List Char) :
    clauseBackwards k (c :: s) = c :: clauseBackwards j s := by
  rw [parenStep] at h
  rw [clauseBackwards.eq_def]
  split at h
  · next hopen =>
    subst hopen
    obtain rfl := Option.some.inj h
    rfl
  split at h
  · next hclose =>
    subst hclose
    split at h
    · cases h
    · next hj =>
      obtain rfl := Option.some.inj h
      simp only [if_true, Nat.sub_add_cancel (Nat.pos_of_ne_zero hj)]
  split at h
  · cases h
  · next hopen hclose hend =>
    obtain rfl := Option.some.inj h
    simp only [if_neg hclose, if_neg hopen, if_neg hend]

/-- The search ends at a symbol unless a step leads over it to its depth. -/
theorem exists_parenStep (h : clauseBackwards k (c :: s) ≠ []) : ∃ j, parenStep j c = some k := by
  rw [clauseBackwards.eq_def] at h
  simp only at h
  split at h
  · next hclose => exact ⟨k + 1, by simp [parenStep, hclose]⟩
  split at h
  · next hopen =>
    cases k with
    | zero => exact absurd rfl h
    | succ k => exact ⟨k, by simp [parenStep, hopen]⟩
  split at h
  · exact absurd rfl h
  · next hclose hopen hend => exact ⟨k, by simp only [parenStep, if_neg hopen, if_neg hclose,
      if_neg hend]⟩

/-- The search goes back over a text and undoes what was counted forwards. -/
theorem clauseBackwards_of_parensAfter (h : parensAfter n w = some k) (s : List Char) :
    clauseBackwards k (w.reverse ++ s) = w.reverse ++ clauseBackwards n s := by
  -- The search begins at the last symbol, so symbols are taken off the end.
  induction w using List.reverseRecOn generalizing k with
  | nil =>
    obtain rfl := Option.some.inj h
    rfl
  | append_singleton w c ih =>
    obtain ⟨j, hw, hc⟩ := parensAfter_concat.1 h
    rw [List.reverse_concat, List.cons_append, clauseBackwards_of_parenStep hc, ih hw,
      List.cons_append]

/-- A text that the search goes back over, up to a symbol that begins a clause, can be counted
forwards. -/
theorem parensAfter_of_clauseBackwards (hd : ∀ k, clauseBackwards k (d :: s) = [] → k = 0)
    (h : clauseBackwards k (w.reverse ++ d :: s) = w.reverse) : parensAfter 0 w = some k := by
  induction w using List.reverseRecOn generalizing k with
  | nil => exact congrArg some (hd k h).symm
  | append_singleton w c ih =>
    rw [List.reverse_concat, List.cons_append] at h
    obtain ⟨j, hc⟩ := exists_parenStep (h ▸ List.cons_ne_nil _ _)
    rw [clauseBackwards_of_parenStep hc] at h
    exact parensAfter_concat.2 ⟨j, ih (List.cons.inj h).2, hc⟩

/-- The search ends where the clause begins exactly if the parentheses in the text match and no
comma or semicolon stands outside them. -/
theorem clauseBackwards_eq_iff (hd : d = '(' ∨ d = ',') :
    clauseBackwards 0 (w.reverse ++ d :: s) = w.reverse ↔ parensAfter 0 w = some 0 := by
  constructor
  · refine parensAfter_of_clauseBackwards fun k hk => ?_
    by_contra hne
    obtain ⟨k, rfl⟩ := Nat.exists_eq_succ_of_ne_zero hne
    rcases hd with rfl | rfl <;> cases hk
  · intro h
    have hend : clauseBackwards 0 (d :: s) = [] := by rcases hd with rfl | rfl <;> rfl
    rw [clauseBackwards_of_parensAfter h, hend, List.append_nil]

/-! ## Where clauses begin -/

/-- A phrase whose readings end with a symbol. -/
def EndsWith (c : Char) (p : Phrase β) : Prop :=
  ∀ s, ∀ r ∈ p.read s, ∃ w, s = w ++ c :: r.2

/-- Behind a local phrase, a phrase that ends with a symbol makes one that ends with it. -/
theorem Local.bind_endsWith {p : Phrase β} {f : β → Phrase γ} (hp : Local p)
    (hf : ∀ b, EndsWith c (f b)) : EndsWith c (p >>= f) := by
  intro s r hr
  obtain ⟨a, ha, hrest⟩ := mem_read_bind.1 hr
  obtain ⟨v, rfl, -⟩ := hp s a ha
  obtain ⟨w, hw⟩ := hf a.1 a.2 r hrest
  exact ⟨v ++ w, by rw [hw, List.append_assoc]⟩

/-- A symbol is a phrase that ends with it. -/
theorem endsWith_char (c : Char) (b : β) : EndsWith c (do Phrase.char c; return b) := by
  intro s r hr
  obtain ⟨a, ha, hr⟩ := mem_read_bind.1 hr
  obtain rfl := mem_read_pure.1 hr
  exact ⟨[], eq_cons_of_mem_read_char ha⟩

/-- The head of a table definition ends with the parenthesis that opens its body. -/
theorem endsWith_createHead : EndsWith '(' createHead :=
  (local_keywords _).bind_endsWith fun _ => (local_keywords _).optional.bind_endsWith fun _ =>
    ((local_keywordOf _).bind fun _ => local_blanks1).optional.bind_endsWith fun _ =>
    ((local_keywordOf _).bind fun _ => local_blanks1).optional.bind_endsWith fun _ =>
    (local_keywords _).bind_endsWith fun _ => (local_keywords _).optional.bind_endsWith fun _ =>
    local_qualifiedName.bind_endsWith fun name => local_blanks.bind_endsWith fun _ =>
    endsWith_char '(' name

/-- The body of a table definition begins where its head stops. -/
theorem exists_of_mem_tableHeads {o : Occurrence (List Char)} (h : o ∈ tableHeads sql) :
    ∃ x, sql = x ++ '(' :: o.rest ∧ o.stop = x.length + 1 ∧ o.start < o.stop := by
  obtain ⟨u, v, rfl, hstart, hread, hstop⟩ := exists_of_mem_search h
  obtain ⟨w, rfl⟩ := endsWith_createHead v _ (exists_of_best?_atWordStart hread).2
  simp only [List.length_append, List.length_cons] at hstop
  exact ⟨u ++ w, by simp, by rw [List.length_append]; omega, by omega⟩

/-- A reference in a clause of the body of a table, outside literals, brackets and table
alterations. -/
structure ClauseReference (sql : List Char) where
  /-- The head of the table definition. -/
  head : Occurrence (List Char)
  body : List Char
  /-- The clauses before the one that the reference stands in. -/
  earlier : List (List Char)
  clause : List Char
  later : List (List Char)
  /-- The pieces of the clause before the reference. -/
  before : List Piece
  after : List Piece
  reference : Occurrence Reference
  head_mem : head ∈ tableHeads sql
  body_eq : enclosed? .sql ('(' :: head.rest) = some body
  clauses_eq : splitTopLevel .sql ',' body = earlier ++ clause :: later
  pieces_eq : codePieces .sql clause = before ++ after
  depth_eq : depthFrom 0 before = 0
  reference_mem : reference ∈ occurrences (atWordStart referencesClause) sql
  start_eq : reference.start = head.stop + (earlier.flatMap (· ++ [','])).length +
    (before.flatMap Piece.text).length
  uncovered : covered (alterSpans sql) reference.start = false

namespace ClauseReference

variable (r : ClauseReference sql)

/-- The text of the clause before the reference. -/
def lead : List Char :=
  r.before.flatMap Piece.text

/-- A clause is the text before the reference and what follows from there on. -/
theorem clause_eq : r.clause = r.lead ++ r.after.flatMap Piece.text := by
  rw [lead, ← List.flatMap_append, ← r.pieces_eq, flatMap_text_codePieces]

/-- The clause begins behind the parenthesis that opens the body or behind a comma. -/
theorem exists_take_start : ∃ x d, (d = '(' ∨ d = ',') ∧
    sql.take r.reference.start = x ++ d :: r.lead ∧ r.head.start < r.reference.start := by
  obtain ⟨x, hsql, hstop, hlt⟩ := exists_of_mem_tableHeads r.head_mem
  have hbody : r.body <+: r.head.rest := by
    have hpieces := prefix_of_enclosedIn (o := '(') (c := ')') r.body_eq
    rwa [flatMap_text_codePieces] at hpieces
  obtain ⟨tail, htail⟩ := hbody
  have hjoin := intercalate_splitTopLevel .sql ',' r.body
  rw [r.clauses_eq, intercalate_append, r.clause_eq] at hjoin
  have htake : sql.take r.reference.start =
      x ++ '(' :: (r.earlier.flatMap (· ++ [',']) ++ r.lead) := by
    have hsplit : sql = (x ++ '(' :: (r.earlier.flatMap (· ++ [',']) ++ r.lead)) ++
        (r.after.flatMap Piece.text ++ (r.later.flatMap (',' :: ·) ++ tail)) := by
      refine hsql.trans ?_
      rw [← htail, ← hjoin]
      simp
    have hlength : r.reference.start =
        (x ++ '(' :: (r.earlier.flatMap (· ++ [',']) ++ r.lead)).length := by
      rw [r.start_eq, hstop]
      simp only [lead, List.length_append, List.length_cons]
      omega
    rw [hlength]
    exact (congrArg (List.take _) hsplit).trans List.take_left
  have hstart : r.head.start < r.reference.start := by
    rw [r.start_eq]
    omega
  rcases List.eq_nil_or_concat r.earlier with hnil | ⟨parts, part, hparts⟩
  · refine ⟨x, '(', .inl rfl, ?_, hstart⟩
    rw [htake, hnil]
    rfl
  · refine ⟨x ++ '(' :: (parts.flatMap (· ++ [',']) ++ part), ',', .inr rfl, ?_, hstart⟩
    rw [htake, hparts]
    simp

end ClauseReference

/-! ## Identifiers before a reference -/

/-- A blank begins no literal. -/
theorem literal?_of_isBlank (hc : isBlank c) (s : List Char) : literal? .sql (c :: s) = none := by
  cases hl : literal? .sql (c :: s) with
  | none => rfl
  | some l =>
    obtain ⟨q, t, heq, hq⟩ := exists_opensQuote hl
    rw [(List.cons.inj heq).1, isBlank_of_opensQuote hq] at hc
    cases hc

/-- A quoted text goes up to the first quote. -/
theorem throughQuote_of_not_mem {q : Char} (h : q ∉ w) (rest : List Char) :
    throughQuote q (w ++ q :: rest) = w ++ [q] := by
  induction w with
  | nil => simp [throughQuote]
  | cons c w ih =>
    rw [List.mem_cons, not_or] at h
    rw [List.cons_append, throughQuote, if_neg (Ne.symm h.1), ih h.2, List.cons_append]

/-- A quoted identifier behind blanks is a literal. -/
theorem codePieces_quoted {b content : List Char} (hb : ∀ c ∈ b, isBlank c) (hquote : '"' ∉ content)
    (rest : List Char) : codePieces .sql (b ++ ('"' :: (content ++ ['"']) ++ rest)) =
      b.map .code ++ .literal ('"' :: (content ++ ['"'])) :: codePieces .sql rest := by
  have hliteral : literal? .sql ('"' :: (content ++ ['"']) ++ rest) =
      some ('"' :: (content ++ ['"'])) := by
    rw [List.cons_append, List.append_assoc, literal?, if_pos (.inr rfl)]
    exact congrArg (some ∘ List.cons '"') (throughQuote_of_not_mem hquote rest)
  have hblanks := pieces_append (fun s => (literal? .sql s).map Piece.literal)
    (fun c hc s => by rw [literal?_of_isBlank (hb c hc)]; rfl) ('"' :: (content ++ ['"']) ++ rest)
  rw [codePieces, hblanks, ← codePieces_of_literal hliteral]
  rfl

/-- A plain identifier at the head of a text ends within a beginning of the text that holds a
character which no name goes on with. -/
theorem exists_append_of_plain {x y : List Char} (hname : ∀ c ∈ w, isNameChar c)
    (hx : ∃ c ∈ x, isNameChar c = false) (h : x ++ y = w ++ rest) : ∃ m, x = w ++ m := by
  rcases List.append_eq_append_iff.1 h with ⟨v, hw, -⟩ | ⟨m, hm, -⟩
  · obtain ⟨c, hc, hnot⟩ := hx
    rw [hname c (hw ▸ List.mem_append_left v hc)] at hnot
    cases hnot
  · exact ⟨m, hm⟩

/-- Pieces that begin with blanks and a literal, cut behind more than the blanks, hold the
literal. -/
theorem exists_append_of_literal {b l : List Char} {before after qs : List Piece}
    (hb : ∀ c ∈ b, isBlank c) (hlead : ∃ c ∈ before.flatMap Piece.text, isBlank c = false)
    (h : before ++ after = b.map .code ++ .literal l :: qs) :
    ∃ m, before.flatMap Piece.text = b ++ (l ++ m) := by
  obtain ⟨c, hc, hblank⟩ := hlead
  have hcode : (b.map Piece.code).flatMap Piece.text = b := by
    rw [List.flatMap_map]
    exact List.flatMap_singleton' b
  have houtside : ∀ ps, b.map Piece.code = before ++ ps → False := by
    intro ps hps
    rw [hps, List.flatMap_append] at hcode
    rw [hb c (hcode ▸ List.mem_append_left _ hc)] at hblank
    cases hblank
  rcases List.append_eq_append_iff.1 h with ⟨ps, hps, -⟩ | ⟨ps, hps, hqs⟩
  · exact (houtside ps hps).elim
  · cases ps with
    | nil => exact (houtside [] (by rw [hps, List.append_nil, List.append_nil])).elim
    | cons p ps =>
      obtain ⟨rfl, -⟩ := List.cons.inj hqs
      exact ⟨ps.flatMap Piece.text, by rw [hps, List.flatMap_append, hcode]; rfl⟩

/-- The beginning of a clause, cut between pieces, begins with the identifier that the clause begins
with, if it holds a character that ends a plain one. -/
theorem leadingIdentifier?_of_pieces {clause : List Char} {before after : List Piece}
    (hpieces : codePieces .sql clause = before ++ after) (hi : leadingIdentifier? clause = some i)
    (hends : ∃ c ∈ trimStart (before.flatMap Piece.text), isNameChar c = false) :
    leadingIdentifier? (before.flatMap Piece.text) = some i := by
  have hlead : ∃ c ∈ before.flatMap Piece.text, isBlank c = false := by
    obtain ⟨c, hc, -⟩ := hends
    by_contra hblank
    have hnil : trimStart (before.flatMap Piece.text) = [] :=
      List.dropWhile_eq_nil_iff.2 fun d hd => by simpa using fun h => hblank ⟨d, hd, h⟩
    rw [hnil] at hc
    cases hc
  have hclause : clause = before.flatMap Piece.text ++ after.flatMap Piece.text := by
    rw [← List.flatMap_append, ← hpieces, flatMap_text_codePieces]
  have hpad : before.flatMap Piece.text = (before.flatMap Piece.text).takeWhile isBlank ++
      trimStart (before.flatMap Piece.text) := List.takeWhile_append_dropWhile.symm
  rw [leadingIdentifier?_eq_some_iff] at hi ⊢
  obtain ⟨g, rest, hspelled, hend, rfl⟩ := hi
  rw [hclause, trimStart_append hlead] at hspelled
  -- A plain identifier cannot go on past a symbol that belongs to no name, and a quoted one is a
  -- literal, which is not cut.
  obtain ⟨m, hm⟩ : ∃ m, trimStart (before.flatMap Piece.text) = g.spelling ++ m := by
    cases g with
    | plain first more hfirst hmore =>
      have hname : ∀ c ∈ first :: more, isNameChar c :=
        List.forall_mem_cons.2 ⟨isNameChar_of_isNameStart hfirst, List.all_eq_true.1 hmore⟩
      exact exists_append_of_plain hname hends hspelled
    | quoted content hne hquote =>
      have hblanks : ∀ c ∈ (before.flatMap Piece.text).takeWhile isBlank, isBlank c :=
        fun c hc => List.mem_takeWhile_imp hc
      have htext : clause = (before.flatMap Piece.text).takeWhile isBlank ++
          ('"' :: (content ++ ['"']) ++ rest) := by
        rw [hclause]
        nth_rewrite 1 [hpad]
        rw [List.append_assoc, hspelled]
        rfl
      have hliteral := codePieces_quoted hblanks hquote rest
      rw [← htext, hpieces] at hliteral
      obtain ⟨m, hm⟩ := exists_append_of_literal hblanks hlead hliteral
      exact ⟨m, List.append_cancel_left (hpad.symm.trans hm)⟩
  refine ⟨g, m, hm, fun hplain c hc => hend hplain c ?_, rfl⟩
  rw [hm, List.append_assoc] at hspelled
  rw [← List.append_cancel_left hspelled, List.head?_append, Option.mem_def.1 hc]
  rfl

/-- Blanks begin with no identifier. -/
theorem leadingIdentifier?_of_blank (h : ∀ c ∈ s, isBlank c) : leadingIdentifier? s = none := by
  rw [leadingIdentifier?, trimStart, List.dropWhile_eq_nil_iff.2 h]
  rfl

/-- A blank is no delimiter. -/
theorem isDelimiter_of_isBlank (hc : isBlank c) : isDelimiter c = false := by
  rw [Bool.eq_false_iff]
  intro h
  simp only [isDelimiter, Bool.or_eq_true, beq_iff_eq] at h
  rcases h with ((rfl | rfl) | rfl) | rfl <;> revert hc <;> decide

/-! ## What a reference in a clause says -/

namespace ClauseReference

variable (r : ClauseReference sql)

/-- The search backwards takes the text of the clause before the reference exactly if parentheses
match there and no comma or semicolon stands outside them. -/
theorem clauseBackwards_eq_lead_iff :
    clauseBackwards 0 (sql.take r.reference.start).reverse = r.lead.reverse ↔
      parensAfter 0 r.lead = some 0 := by
  obtain ⟨x, d, hd, htake, -⟩ := r.exists_take_start
  rw [htake, List.reverse_append, List.reverse_cons, List.append_assoc, List.singleton_append]
  exact clauseBackwards_eq_iff hd

/-- Nothing but blanks is passed over by the search. -/
theorem clauseBackwards_of_blank (h : ∀ c ∈ r.lead, isBlank c) :
    clauseBackwards 0 (sql.take r.reference.start).reverse = r.lead.reverse := by
  obtain ⟨x, d, hd, htake, -⟩ := r.exists_take_start
  have hplain : r.lead.any isDelimiter = false := by
    rw [List.any_eq_false]
    intro c hc
    rw [isDelimiter_of_isBlank (h c hc)]
    exact Bool.false_ne_true
  rw [htake, List.reverse_append, List.reverse_cons, List.append_assoc, List.singleton_append,
    clauseBackwards_of_depthBefore? (depthBefore?_of_not_delimiter hplain 0)]
  rcases hd with rfl | rfl <;> exact List.append_nil _

/-- If the search backwards takes the text of the clause before the reference, the identifier found
is the one that this text begins with. -/
theorem leadingIdentifier?_clauseBefore
    (h : clauseBackwards 0 (sql.take r.reference.start).reverse = r.lead.reverse) :
    leadingIdentifier? (clauseBefore (sql.take r.reference.start)) =
      leadingIdentifier? r.lead := by
  rw [clauseBefore, h, List.reverse_reverse, leadingIdentifier?_trim]

/-- A table is defined before the reference, since it stands in the body of one. -/
theorem exists_tableBefore? :
    ∃ source, tableBefore? (tableHeads sql) r.reference.start = some source := by
  obtain ⟨-, -, -, -, hlt⟩ := r.exists_take_start
  have hmem : r.head ∈ (tableHeads sql).filter fun o => o.start < r.reference.start :=
    List.mem_filter.2 ⟨r.head_mem, decide_eq_true hlt⟩
  obtain ⟨o, ho⟩ := Option.ne_none_iff_exists'.1
    (mt List.getLast?_eq_none_iff.1 (List.ne_nil_of_mem hmem))
  exact ⟨nameOf o.value, by rw [tableBefore?, ho, Option.map_some]⟩

/-- What the reference says is among what the references of the text say. -/
theorem mem_inlineFacts {f : Fact} (h : f ∈ referenceFacts (tableHeads sql) sql r.reference) :
    f ∈ inlineFacts sql := by
  refine List.mem_flatMap.2 ⟨r.reference, List.mem_filter.2 ⟨r.reference_mem, ?_⟩, h⟩
  exact congrArg not r.uncovered

/-- The body of the table records the identifier that the clause begins with. -/
theorem column_mem_createFacts (hi : leadingIdentifier? r.clause = some i)
    (hcolumn : i.isConstraint = false) :
    .column (nameOf r.head.value) i.name ∈ createFacts sql := by
  refine List.mem_flatMap.2 ⟨r.head, r.head_mem, ?_⟩
  rw [definitionFacts, r.body_eq]
  refine List.mem_cons_of_mem _ ?_
  have hbody : (trim r.body).isEmpty = false := by
    rw [List.isEmpty_eq_false_iff]
    intro hnil
    have hjoin := intercalate_splitTopLevel .sql ',' r.body
    rw [r.clauses_eq, intercalate_append] at hjoin
    have hblank : ∀ c ∈ r.clause, isBlank c := fun c hc =>
      isBlank_of_trim_eq_nil hnil c (hjoin ▸ List.mem_append_right _ (List.mem_append_left _ hc))
    rw [leadingIdentifier?_of_blank hblank] at hi
    cases hi
  rw [bodyFacts, hbody, r.clauses_eq]
  refine List.mem_flatMap.2 ⟨r.clause, by simp, ?_⟩
  exact column_mem_clauseFacts.2 ⟨rfl, i, by rw [leadingIdentifier?_trim, hi], hcolumn, rfl⟩

end ClauseReference

/-- A reference in a clause of a table that declares a column. The search for its clause finds the
text of the clause before the reference exactly if, with literals read like code, parentheses match
in this text and no comma or semicolon stands outside them. Then the foreign key that is recorded
has the column of the clause as its source, provided that the identifier of the column ends before
the reference: some character there, behind the blanks at its start, belongs to no plain name. If
nothing but blanks stands there, the reference has no source. -/
theorem clauseReference_recorded {history : List Source}
    (hsql : ∃ m ∈ history, sql = stripComments .sql m.text.toList) (r : ClauseReference sql)
    (hi : leadingIdentifier? r.clause = some i) (hcolumn : i.isConstraint = false) :
    i.name ∈ (extract history).snapshot.columns.columnsOf (nameOf r.head.value) ∧
    (clauseBackwards 0 (sql.take r.reference.start).reverse = r.lead.reverse ↔
      parensAfter 0 r.lead = some 0) ∧
    (parensAfter 0 r.lead = some 0 → (∃ c ∈ trimStart r.lead, isNameChar c = false) →
      ∃ source key, tableBefore? (tableHeads sql) r.reference.start = some source ∧
        key = ⟨source, i.name, nameOf r.reference.value.table,
          columnOf r.reference.value.column⟩ ∧
        referenceFacts (tableHeads sql) sql r.reference = [.foreignKey key] ∧
        key ∈ (extract history).snapshot.foreignKeys) ∧
    ((∀ c ∈ r.lead, isBlank c) → referenceFacts (tableHeads sql) sql r.reference =
      [.notice (.sourcelessReference (String.ofList r.reference.value.table))]) := by
  obtain ⟨m, hm, rfl⟩ := hsql
  have hfacts : ∀ {f}, f ∈ sqlFacts (stripComments .sql m.text.toList) →
      f ∈ history.flatMap facts := fun hf => List.mem_flatMap.2 ⟨m, hm, hf⟩
  refine ⟨?_, r.clauseBackwards_eq_lead_iff, fun hparens hends => ?_, fun hblank => ?_⟩
  · refine Schema.mem_columnsOf_ofFacts.2 (hfacts ?_)
    simp only [sqlFacts, List.mem_append]
    exact .inl (.inl (.inl (r.column_mem_createFacts hi hcolumn)))
  · have hclause := r.leadingIdentifier?_clauseBefore (r.clauseBackwards_eq_lead_iff.2 hparens)
    have hsource := hclause.trans (leadingIdentifier?_of_pieces r.pieces_eq hi hends)
    obtain ⟨source, htable⟩ := r.exists_tableBefore?
    have hreference : referenceFacts (tableHeads (stripComments .sql m.text.toList))
        (stripComments .sql m.text.toList) r.reference = [.foreignKey ⟨source, i.name,
          nameOf r.reference.value.table, columnOf r.reference.value.column⟩] := by
      simp [referenceFacts, edgeFacts, hsource, hcolumn, htable]
    refine ⟨source, _, htable, rfl, hreference, Schema.mem_foreignKeys_ofFacts.2 (hfacts ?_)⟩
    simp only [sqlFacts, List.mem_append]
    exact .inr (r.mem_inlineFacts (hreference ▸ List.mem_singleton_self _))
  · have hclause := r.leadingIdentifier?_clauseBefore (r.clauseBackwards_of_blank hblank)
    have hnone := hclause.trans (leadingIdentifier?_of_blank hblank)
    simp [referenceFacts, edgeFacts, hnone]

/-- A table whose second column refers to another table behind some text. -/
def referringSql (lead : List Char) : List Char :=
  "CREATE TABLE t (a int,".toList ++ (lead ++ "REFERENCES u(d));".toList)

/-- The history of one such table. -/
def referringHistory (lead : List Char) : List Source :=
  [⟨"1.sql", String.ofList (referringSql lead)⟩]

/-- A text without comments is what a history of one migration holds. -/
theorem exists_of_referringHistory (lead : List Char)
    (h : stripComments .sql (referringSql lead) = referringSql lead) :
    ∃ m ∈ referringHistory lead, referringSql lead = stripComments .sql m.text.toList :=
  ⟨_, List.mem_singleton_self _, by rw [String.toList_ofList, h]⟩

/-- The reference of such a table. -/
def referringReference (lead : List Char) (hhead : tableHeads (referringSql lead) ≠ [])
    (hreference : occurrences (atWordStart referencesClause) (referringSql lead) ≠ [])
    (hbody : enclosed? .sql ('(' :: ((tableHeads (referringSql lead)).head hhead).rest) =
        some ("a int,".toList ++ (lead ++ "REFERENCES u(d)".toList)) ∧
      splitTopLevel .sql ',' ("a int,".toList ++ (lead ++ "REFERENCES u(d)".toList)) =
        ["a int".toList, lead ++ "REFERENCES u(d)".toList])
    (hlead : codePieces .sql (lead ++ "REFERENCES u(d)".toList) =
        codePieces .sql lead ++ codePieces .sql "REFERENCES u(d)".toList ∧
      depthFrom 0 (codePieces .sql lead) = 0)
    (hstart : ((occurrences _ (referringSql lead)).head hreference).start =
        ((tableHeads (referringSql lead)).head hhead).stop + 6 + lead.length ∧
      covered (alterSpans (referringSql lead))
        ((occurrences _ (referringSql lead)).head hreference).start = false) :
    ClauseReference (referringSql lead) where
  head := (tableHeads (referringSql lead)).head hhead
  body := "a int,".toList ++ (lead ++ "REFERENCES u(d)".toList)
  earlier := ["a int".toList]
  clause := lead ++ "REFERENCES u(d)".toList
  later := []
  before := codePieces .sql lead
  after := codePieces .sql "REFERENCES u(d)".toList
  reference := (occurrences _ (referringSql lead)).head hreference
  head_mem := List.head_mem _
  body_eq := hbody.1
  clauses_eq := hbody.2
  pieces_eq := hlead.1
  depth_eq := hlead.2
  reference_mem := List.head_mem _
  start_eq := by rw [hstart.1, flatMap_text_codePieces]; rfl
  uncovered := hstart.2

/-- Commas and parentheses in a type and in a default with a literal, and a dollar sign at the
end. -/
def guardedLead : List Char :=
  " \"b c\" n(1, 2)[] DEFAULT f('(x)', 1) || $$x$$".toList

/-- The reference behind `guardedLead`. -/
def guardedReference : ClauseReference (referringSql guardedLead) :=
  referringReference guardedLead (by decide +kernel) (by decide +kernel) (by decide +kernel)
    (by decide +kernel) (by decide +kernel)

/-- A reference right behind a dollar quote, in a clause with commas and parentheses in a type and
in a default, belongs to the quoted column of the clause. -/
theorem guardedReference_recorded :
    (∃ m ∈ referringHistory guardedLead,
      referringSql guardedLead = stripComments .sql m.text.toList) ∧
    leadingIdentifier? guardedReference.clause = some ⟨"b c", true⟩ ∧
    parensAfter 0 guardedReference.lead = some 0 ∧
    (∃ c ∈ trimStart guardedReference.lead, isNameChar c = false) ∧
    ⟨"t", "b c", "u", "d"⟩ ∈ (extract (referringHistory guardedLead)).snapshot.foreignKeys := by
  have hsql := exists_of_referringHistory guardedLead (by decide +kernel)
  have hi : leadingIdentifier? guardedReference.clause = some ⟨"b c", true⟩ := by decide +kernel
  have hparens : parensAfter 0 guardedReference.lead = some 0 := by decide +kernel
  have hends : ∃ c ∈ trimStart guardedReference.lead, isNameChar c = false :=
    ⟨'(', by decide +kernel, by decide⟩
  obtain ⟨source, key, htable, rfl, -, hkey⟩ :=
    (clauseReference_recorded hsql guardedReference hi (by decide)).2.2.1 hparens hends
  have hsource : tableBefore? (tableHeads (referringSql guardedLead))
      guardedReference.reference.start = some "t" := by decide +kernel
  obtain rfl := Option.some.inj (hsource.symm.trans htable)
  have htarget : nameOf guardedReference.reference.value.table = "u" ∧
      columnOf guardedReference.reference.value.column = "d" := by decide +kernel
  rw [htarget.1, htarget.2] at hkey
  exact ⟨hsql, hi, hparens, hends, hkey⟩

/-- A comma in a literal. -/
def quotedComma : List Char :=
  " b text DEFAULT 'x,y' ".toList

/-- The reference behind `quotedComma`. -/
def quotedCommaReference : ClauseReference (referringSql quotedComma) :=
  referringReference quotedComma (by decide +kernel) (by decide +kernel) (by decide +kernel)
    (by decide +kernel) (by decide +kernel)

/-- A comma in a literal is taken for the end of a clause, and what follows it for a column. -/
theorem clause_search_in_literal :
    leadingIdentifier? quotedCommaReference.clause = some ⟨"b", false⟩ ∧
      parensAfter 0 quotedCommaReference.lead = none ∧
      (extract (referringHistory quotedComma)).snapshot.foreignKeys = [⟨"t", "y", "u", "d"⟩] ∧
      "y" ∉ (extract (referringHistory quotedComma)).snapshot.columns.columnsOf "t" := by
  refine ⟨?_, ?_, ?_, ?_⟩ <;> decide +kernel

end SchemaDrift.Migration
