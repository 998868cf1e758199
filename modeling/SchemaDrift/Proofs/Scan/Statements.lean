import SchemaDrift.Proofs.Scan.Parts

/-!
# Statements as parts between semicolons

The end of a statement and the parts of a text are found by two searches. Both go on up to the first
semicolon in code behind which no bracket is open (`HasTopLevel`), so a statement is the first part of the
split at semicolons, and the split goes on behind it as if the text began there
(`splitTopLevel_statement`). For texts of bytes, the end of a statement from an offset between two
characters is where the first part of the rest ends (`statement_cases`). Cutting a text at the ends
of its statements, one after the other (`statementSpans`), therefore gives the parts of the text.
-/

namespace SchemaDrift.Scan

variable {d : Dialect} {sep : Char} {s : List Char} {depth : Nat} {ps qs : List Piece}

/-- The number of symbols of code that are among some. -/
def countCode (symbols : List Char) (ps : List Piece) : Nat :=
  ps.countP fun
    | .code c => symbols.contains c
    | _ => false

/-- No bracket is open behind some pieces: in no run of pieces up to their end are more brackets
opened than closed, whatever their kinds. -/
def NoneOpen (ps : List Piece) : Prop :=
  ∀ recent, recent <:+ ps → countCode ['(', '[', '{'] recent ≤ countCode [')', ']', '}'] recent

/-- A symbol stands in the code of a text outside brackets. -/
def HasTopLevel (d : Dialect) (sep : Char) (s : List Char) : Prop :=
  ∃ before after, codePieces d s = before ++ .code sep :: after ∧ NoneOpen before

/-! ## Pieces -/

/-- A symbol of code counts if it is one of those that are counted. -/
theorem countCode_code (symbols : List Char) (c : Char) (ps : List Piece) :
    countCode symbols (.code c :: ps) =
      countCode symbols ps + if symbols.contains c then 1 else 0 :=
  List.countP_cons

/-- One more piece in front leaves none open if the pieces behind do, and all together close as many
brackets as they open. -/
theorem noneOpen_cons {p : Piece} : NoneOpen (p :: ps) ↔ NoneOpen ps ∧
    countCode ['(', '[', '{'] (p :: ps) ≤ countCode [')', ']', '}'] (p :: ps) := by
  simp only [NoneOpen, List.suffix_cons_iff]
  constructor
  · exact fun h => ⟨fun recent hr => h recent (.inr hr), h _ (.inl rfl)⟩
  · rintro ⟨hps, hall⟩ recent (rfl | hr)
    · exact hall
    · exact hps recent hr

/-- Brackets that were open and those opened since are all closed if none of the latter is left open
and enough are closed. -/
theorem depthFrom_eq_zero_iff : depthFrom depth ps = 0 ↔
    NoneOpen ps ∧ depth + countCode ['(', '[', '{'] ps ≤ countCode [')', ']', '}'] ps := by
  induction ps generalizing depth with
  | nil =>
    refine ⟨fun h => ⟨fun recent hr => ?_, Nat.le_of_eq h⟩, fun h => Nat.le_zero.1 h.2⟩
    rw [List.suffix_nil.1 hr]
    exact Nat.le_refl 0
  | cons p ps ih =>
    cases p with
    | literal l | comment l =>
      rw [noneOpen_cons]
      exact ih.trans ⟨fun h => ⟨⟨h.1, Nat.le_of_add_left_le h.2⟩, h.2⟩, fun h => ⟨h.1.1, h.2⟩⟩
    | code c =>
      have hdepth : depthAfter depth c = if ['(', '[', '{'].contains c then depth + 1
          else if [')', ']', '}'].contains c then depth - 1 else depth := by
        simp [depthAfter, isOpener, isCloser, or_assoc]
      have hopen : ['(', '[', '{'].contains c → [')', ']', '}'].contains c = false := by
        intro h
        simp only [List.contains_eq_mem, List.mem_cons, List.not_mem_nil, or_false,
          decide_eq_true_iff] at h
        rcases h with rfl | rfl | rfl <;> decide
      rw [depthFrom, ih, noneOpen_cons, countCode_code, countCode_code, hdepth, and_assoc]
      refine and_congr_right fun hps => ?_
      have hself := hps ps (List.suffix_refl ps)
      clear hdepth
      by_cases ho : ['(', '[', '{'].contains c
      · simp only [ho, hopen ho, if_true, Bool.false_eq_true, if_false]
        omega
      · by_cases hc : [')', ']', '}'].contains c
        · simp only [ho, hc, if_true, Bool.false_eq_true, if_false]
          omega
        · simp only [ho, hc, Bool.false_eq_true, if_false]
          omega

/-- The depth is zero exactly if no bracket is open. -/
theorem depthFrom_zero_iff : depthFrom 0 ps = 0 ↔ NoneOpen ps := by
  rw [depthFrom_eq_zero_iff, Nat.zero_add]
  exact ⟨And.left, fun h => ⟨h, h ps (List.suffix_refl ps)⟩⟩

/-- Where a separator stands outside brackets, one is the first. -/
theorem exists_first_separator (h : separatorFree sep depth ps = false) :
    ∃ before after, ps = before ++ .code sep :: after ∧ separatorFree sep depth before ∧
      depthFrom depth before = 0 := by
  induction ps generalizing depth with
  | nil => cases h
  | cons p ps ih =>
    cases p with
    | code c =>
      by_cases hsep : c = sep ∧ depth = 0
      · obtain ⟨rfl, rfl⟩ := hsep
        exact ⟨[], ps, rfl, rfl, rfl⟩
      · have hno : (c == sep && depth == 0) = false := by simpa using hsep
        rw [separatorFree, hno, Bool.not_false, Bool.true_and] at h
        obtain ⟨before, after, rfl, hfree, hdepth⟩ := ih h
        refine ⟨.code c :: before, after, rfl, ?_, hdepth⟩
        rw [separatorFree, hno, Bool.not_false, Bool.true_and, hfree]
    | literal l | comment l =>
      obtain ⟨before, after, rfl, hfree, hdepth⟩ := ih h
      exact ⟨_ :: before, after, rfl, hfree, hdepth⟩

/-- What follows pieces without a separator outside brackets is read at the depth behind them. -/
theorem separatorFree_of_append (h : separatorFree sep depth (ps ++ qs)) :
    separatorFree sep (depthFrom depth ps) qs := by
  induction ps generalizing depth with
  | nil => exact h
  | cons p ps ih =>
    cases p with
    | code c =>
      rw [List.cons_append, separatorFree, Bool.and_eq_true] at h
      exact ih h.2
    | literal l | comment l => exact ih h

/-- A text has a separator outside brackets exactly if its pieces are not free of it. -/
theorem separatorFree_eq_false_iff : separatorFree sep 0 (codePieces d s) = false ↔
    HasTopLevel d sep s := by
  constructor
  · intro h
    obtain ⟨before, after, hps, -, hdepth⟩ := exists_first_separator h
    exact ⟨before, after, hps, depthFrom_zero_iff.1 hdepth⟩
  · rintro ⟨before, after, hps, hopen⟩
    rw [← Bool.not_eq_true, hps]
    intro hfree
    have hcut := separatorFree_of_append hfree
    rw [depthFrom_zero_iff.2 hopen, separatorFree] at hcut
    simp at hcut

/-! ## Statements -/

/-- A statement goes through pieces without a semicolon outside brackets. -/
theorem statementIn_of_separatorFree (h : separatorFree ';' depth ps) (qs : List Piece) :
    statementIn depth (ps ++ qs) =
      ps.flatMap Piece.text ++ statementIn (depthFrom depth ps) qs := by
  induction ps generalizing depth with
  | nil => rfl
  | cons p ps ih =>
    cases p with
    | code c =>
      rw [separatorFree, Bool.and_eq_true] at h
      have hno : ¬ (c = ';' ∧ depth = 0) := by
        rintro ⟨rfl, rfl⟩
        exact absurd h.1 (by decide)
      rw [List.cons_append, statementIn, if_neg hno, ih h.2]
      rfl
    | literal l | comment l =>
      show l ++ statementIn depth (ps ++ qs) = _
      rw [ih h, List.flatMap_cons, List.append_assoc]
      rfl

/-- A text is one statement, or a semicolon ends its first statement. The split at semicolons ends
the first part there too and goes on behind as if the text began there. -/
theorem splitTopLevel_statement (d : Dialect) (s : List Char) :
    (¬ HasTopLevel d ';' s ∧ statement d s = s ∧ splitTopLevel d ';' s = [s]) ∨
    ∃ rest, HasTopLevel d ';' s ∧ s = statement d s ++ ';' :: rest ∧
      splitTopLevel d ';' s = statement d s :: splitTopLevel d ';' rest := by
  cases hfree : separatorFree ';' 0 (codePieces d s) with
  | true =>
    have hstatement := statementIn_of_separatorFree hfree []
    have hsplit := splitPieces_of_separatorFree hfree []
    rw [List.append_nil, flatMap_text_codePieces] at hstatement hsplit
    refine .inl ⟨?_, ?_, ?_⟩
    · rw [← separatorFree_eq_false_iff, hfree]
      simp
    · rw [statement, hstatement, statementIn, List.append_nil]
    · rw [splitTopLevel, hsplit, splitPieces, List.append_nil]
  | false =>
    obtain ⟨before, after, hps, hbefore, hdepth⟩ := exists_first_separator hfree
    have htext := flatMap_text_codePieces (d := d) s
    have hcode : codePieces d s = (before ++ [.code ';']) ++ after := by rw [hps]; simp
    have hrest : codePieces d (after.flatMap Piece.text) = after :=
      pieces_of_append literalReader_spec hcode
    have hfirst : statement d s = before.flatMap Piece.text := by
      rw [statement, hps, statementIn_of_separatorFree hbefore, hdepth, statementIn,
        if_pos ⟨rfl, rfl⟩, List.append_nil]
    rw [hps, List.flatMap_append, List.flatMap_cons] at htext
    refine .inr ⟨after.flatMap Piece.text, separatorFree_eq_false_iff.1 hfree, ?_, ?_⟩
    · rw [hfirst]
      exact htext.symm
    · have hcut : separates ';' 0 ';' = true := by decide
      rw [splitTopLevel, hps, splitPieces_of_separatorFree hbefore, hdepth, splitPieces,
        if_pos hcut, hfirst, List.append_nil, splitTopLevel, hrest]
      rfl

/-! ## Texts of bytes -/

/-- The symbols of bytes are counted by the size of a text. -/
theorem length_byteSymbols (text : String) : (byteSymbols text).length = text.utf8ByteSize := by
  rw [byteSymbols, List.length_map, ← String.size_toByteArray, ← String.utf8Encode_toList,
    List.utf8Encode, List.size_toByteArray]
  rfl

/-- The symbols of bytes of two texts are those of the first and then those of the second. -/
theorem byteSymbols_append (a b : String) :
    byteSymbols (a ++ b) = byteSymbols a ++ byteSymbols b := by
  rw [byteSymbols_eq, String.toList_append, symbols_append]
  rfl

/-- A text is put together again from the symbols of its bytes. -/
theorem ofByteSymbols?_byteSymbols (text : String) :
    ofByteSymbols? (byteSymbols text) = some text := by
  rw [byteSymbols_eq, ofByteSymbols?_symbols, String.ofList_toList]

/-- From the end of a leading part on, a text is read as if it began there. -/
theorem statementEnd_append (d : Dialect) (a b : String) :
    statementEnd d (a ++ b) a.utf8ByteSize =
      a.utf8ByteSize + (statement d (byteSymbols b)).length := by
  have hle : a.utf8ByteSize ≤ (byteSymbols (a ++ b)).length := by
    rw [length_byteSymbols, String.utf8ByteSize_append]
    exact Nat.le_add_right ..
  rw [statementEnd, if_pos hle, byteSymbols_append, ← length_byteSymbols a, List.drop_left]

/-- A text is one part and one statement, or a semicolon ends its first part and its first statement
at once, and the other parts are those of the text behind it. -/
theorem statement_cases (d : Dialect) (b : String) :
    (¬ HasTopLevel d ';' (byteSymbols b) ∧ splitAtByte? d 59 b = some [b] ∧
      ∀ a, statementEnd d (a ++ b) a.utf8ByteSize = a.utf8ByteSize + b.utf8ByteSize) ∨
    ∃ first rest, HasTopLevel d ';' (byteSymbols b) ∧ b = first ++ ";" ++ rest ∧
      splitAtByte? d 59 b = (splitAtByte? d 59 rest).map (first :: ·) ∧
      ∀ a, statementEnd d (a ++ b) a.utf8ByteSize = a.utf8ByteSize + first.utf8ByteSize := by
  have hsep : Char.ofNat (59 : UInt8).toNat = ';' := by decide
  simp only [splitAtByte?, hsep, statementEnd_append]
  rcases splitTopLevel_statement d (byteSymbols b) with ⟨hno, hstatement, hsplit⟩ |
      ⟨rest, hyes, hb, hsplit⟩
  · refine .inl ⟨hno, ?_, fun a => ?_⟩
    · rw [hsplit, List.mapM_cons, ofByteSymbols?_byteSymbols]
      rfl
    · rw [hstatement, length_byteSymbols]
  · -- The semicolon is of ASCII, so it parts the text where it parts the bytes.
    obtain ⟨u, v, hchars, hu, hv⟩ := exists_of_symbols_eq (by decide) hb
    have hfirst : statement d (byteSymbols b) = byteSymbols (String.ofList u) := by
      rw [hu, byteSymbols_eq, String.toList_ofList]
    have hrest : rest = byteSymbols (String.ofList v) := by
      rw [hv, byteSymbols_eq, String.toList_ofList]
    refine .inr ⟨String.ofList u, String.ofList v, hyes, ?_, ?_, fun a => ?_⟩
    · rw [← String.toList_inj, hchars]
      simp
    · rw [hsplit, hfirst, hrest, List.mapM_cons, ofByteSymbols?_byteSymbols]
      cases (splitTopLevel d ';' (byteSymbols (String.ofList v))).mapM ofByteSymbols? <;> rfl
    · rw [hfirst, length_byteSymbols]

/-- The size of two texts with a semicolon between them. -/
theorem utf8ByteSize_semicolon (first rest : String) :
    (first ++ ";" ++ rest).utf8ByteSize = first.utf8ByteSize + 1 + rest.utf8ByteSize := by
  rw [String.utf8ByteSize_append, String.utf8ByteSize_append]
  rfl

/-- Splitting at semicolons never fails, since these cut no character. -/
theorem exists_splitAtByte?_semicolon (d : Dialect) (b : String) :
    ∃ parts, splitAtByte? d 59 b = some parts := by
  induction hn : b.utf8ByteSize using Nat.strong_induction_on generalizing b with
  | _ n ih =>
    rcases statement_cases d b with ⟨-, hsplit, -⟩ | ⟨first, rest, -, rfl, hsplit, -⟩
    · exact ⟨[b], hsplit⟩
    · have hless : rest.utf8ByteSize < n := by
        rw [← hn, utf8ByteSize_semicolon]
        omega
      obtain ⟨parts, hparts⟩ := ih _ hless rest rfl
      exact ⟨first :: parts, by rw [hsplit, hparts]; rfl⟩

/-! ## Cutting a text into statements -/

/-- The end of a statement that stops before the end of the text is not before its start. -/
theorem le_statementEnd {d : Dialect} {text : String} {offset : Nat}
    (h : statementEnd d text offset < text.utf8ByteSize) : offset ≤ statementEnd d text offset := by
  rw [← length_byteSymbols] at h
  rw [statementEnd] at h ⊢
  split
  · exact Nat.le_add_right ..
  · next hpast => rw [if_neg hpast] at h; exact absurd h (Nat.lt_irrefl _)

/-- The offsets between which the statements of a text stand, from an offset on. Each statement goes
up to where the search for its end stops, and the next one begins behind the semicolon there, unless
that is the end of the text. -/
def statementSpans (d : Dialect) (text : String) (offset : Nat) : List (Nat × Nat) :=
  if statementEnd d text offset < text.utf8ByteSize then
    (offset, statementEnd d text offset) :: statementSpans d text (statementEnd d text offset + 1)
  else [(offset, statementEnd d text offset)]
termination_by text.utf8ByteSize - offset
decreasing_by
  next h =>
    have hle := le_statementEnd h
    omega

/-- The text between two offsets, if both are between characters. -/
def textBetween? (text : String) (span : Nat × Nat) : Option String :=
  ofByteSymbols? (((byteSymbols text).drop span.1).take (span.2 - span.1))

/-- The text between two offsets is the one that stands there. -/
theorem textBetween?_append (a b c : String) :
    textBetween? (a ++ b ++ c) (a.utf8ByteSize, a.utf8ByteSize + b.utf8ByteSize) = some b := by
  rw [textBetween?, Nat.add_sub_cancel_left, byteSymbols_append, byteSymbols_append,
    ← length_byteSymbols, ← length_byteSymbols, List.append_assoc, List.drop_left, List.take_left,
    ofByteSymbols?_byteSymbols]

/-- The texts of the statements from an offset between two characters on are the parts of the text
behind it. -/
theorem mapM_statementSpans {d : Dialect} {text : String} {offset : Nat} {a b : String}
    (htext : text = a ++ b) (hoffset : offset = a.utf8ByteSize) :
    (statementSpans d text offset).mapM (textBetween? text) = splitAtByte? d 59 b := by
  fun_induction statementSpans d text offset generalizing a b with
  | case1 offset hstop ih =>
    subst htext hoffset
    rcases statement_cases d b with ⟨-, -, hend⟩ | ⟨first, rest, -, rfl, hsplit, hend⟩
    · rw [hend, ← String.utf8ByteSize_append] at hstop
      exact absurd hstop (Nat.lt_irrefl _)
    · have hbegin : a.utf8ByteSize + first.utf8ByteSize + 1 = (a ++ first ++ ";").utf8ByteSize := by
        rw [String.utf8ByteSize_append, String.utf8ByteSize_append]
        rfl
      have htext : a ++ (first ++ ";" ++ rest) = a ++ first ++ ";" ++ rest := by
        simp only [String.append_assoc]
      have hfirst := textBetween?_append a first (";" ++ rest)
      rw [← String.append_assoc, ← htext] at hfirst
      rw [hend] at ih ⊢
      rw [List.mapM_cons, hfirst, ih htext hbegin, hsplit]
      cases splitAtByte? d 59 rest <;> rfl
  | case2 offset hstop =>
    subst htext hoffset
    rcases statement_cases d b with ⟨-, hsplit, hend⟩ | ⟨first, rest, -, rfl, -, hend⟩
    · have hlast := textBetween?_append a b ""
      rw [String.append_empty] at hlast
      rw [hend, hsplit, List.mapM_cons, hlast]
      rfl
    · rw [hend, String.utf8ByteSize_append, utf8ByteSize_semicolon] at hstop
      omega

/-- **Ends of statements agree with the split at semicolons.** For every text and every offset
between two of its characters, at the end of a leading part `a`: the statement there ends where the
first of the parts of the text behind ends. So its end lies between the offset and the size of the
text, it is the size exactly if no semicolon stands behind outside literals and brackets, and
cutting the text at the ends of its statements, one after the other, gives exactly the parts. -/
theorem statementEnd_splits (d : Dialect) (a b : String) :
    let text := a ++ b
    let offset := a.utf8ByteSize
    let stop := statementEnd d text offset
    (∃ first later, splitAtByte? d 59 b = some (first :: later) ∧
      stop = offset + first.utf8ByteSize) ∧
    (offset ≤ stop ∧ stop ≤ text.utf8ByteSize) ∧
    (stop = text.utf8ByteSize ↔ ¬ HasTopLevel d ';' (byteSymbols b)) ∧
    (statementSpans d text offset).mapM (textBetween? text) = splitAtByte? d 59 b := by
  intro text offset stop
  have hsize : text.utf8ByteSize = offset + b.utf8ByteSize := String.utf8ByteSize_append
  have hspans : (statementSpans d text offset).mapM (textBetween? text) = splitAtByte? d 59 b :=
    mapM_statementSpans rfl rfl
  rcases statement_cases d b with ⟨hno, hsplit, hend⟩ | ⟨first, rest, hyes, hb, hsplit, hend⟩
  · have hstop : stop = offset + b.utf8ByteSize := hend a
    refine ⟨⟨b, [], hsplit, hstop⟩, ?_, ?_, hspans⟩
    · omega
    · exact iff_of_true (hstop.trans hsize.symm) hno
  · have hstop : stop = offset + first.utf8ByteSize := hend a
    have hparts : b.utf8ByteSize = first.utf8ByteSize + 1 + rest.utf8ByteSize := by
      rw [hb, utf8ByteSize_semicolon]
    obtain ⟨later, hlater⟩ := exists_splitAtByte?_semicolon d rest
    refine ⟨⟨first, later, by rw [hsplit, hlater]; rfl, hstop⟩, ?_, ?_, hspans⟩
    · omega
    · refine iff_of_false ?_ (not_not_intro hyes)
      omega

/-- Semicolons in brackets end no statement, and a stray closing bracket does not keep the one behind
it from ending one. -/
theorem statementEnd_bracketed :
    statementEnd .sql "f(a; [b;]), c]; d" 0 = 14 ∧
      HasTopLevel .sql ';' (byteSymbols "f(a; [b;]), c]; d") ∧
      ¬ HasTopLevel .sql ';' (byteSymbols "f(a; [b;]") ∧
      splitAtByte? .sql 59 "f(a; [b;]), c]; d" = some ["f(a; [b;]), c]", " d"] := by
  have hwhole := (statementEnd_splits .sql "" "f(a; [b;]), c]; d").2.2.1
  have hopen := (statementEnd_splits .sql "" "f(a; [b;]").2.2.1
  have hend : statementEnd .sql "f(a; [b;]), c]; d" 0 = 14 := by decide +kernel
  refine ⟨hend, ?_, hopen.1 (by decide +kernel), by decide +kernel⟩
  by_contra hnone
  have hsize := hwhole.2 hnone
  exact absurd hsize (by decide +kernel)

end SchemaDrift.Scan
