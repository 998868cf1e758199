import SchemaDrift.Proofs.Migration.Script

/-!
# Phrases of a script

How the phrases of migrations read the parts of a script: each phrase is read in one way off the
text that was written for it, and names mean what they were written for.
-/

namespace SchemaDrift.Script

open Text Scan Migration Phrase

variable {w rest : List Char}

/-- A symbol between two texts, when a third one follows. -/
theorem append_cons_append (s t u : List Char) (c : Char) :
    (s ++ c :: t) ++ u = s ++ c :: (t ++ u) :=
  List.append_assoc s (c :: t) u

/-! ## Names -/

/-- A plain character that begins a name begins one when case is ignored. -/
theorem isFoldedNameStart_of_isNameStart {c : Char} (hc : isPlain c) (h : isNameStart c) :
    isFoldedNameStart c := by
  rw [isFoldedNameStart, foldCase_of_isPlain hc]
  simp only [isNameStart, Char.isAlpha_toLower_eq_isAlpha, Bool.or_eq_true, beq_iff_eq] at h ⊢
  rcases h with h | rfl
  · exact .inl h
  · exact .inr rfl

/-- A plain word is read as an identifier. -/
theorem read_identifier {start : Char → Bool} (hw : ∀ c ∈ w, isPlain c) (hs : w.head?.any start)
    (hr : Stops rest) :
    (identifier start).read (w ++ rest) = [(⟨String.ofList w, false⟩, rest)] := by
  cases w with
  | nil => cases hs
  | cons c w =>
    rw [List.forall_mem_cons] at hw
    have hquote : c ≠ '"' := fun he => by rw [he] at hw; exact absurd hw.1 (by decide)
    have hname : ∀ c ∈ w, isNameChar c := fun c hc => isNameChar_of_isPlain (hw.2 c hc)
    have hstop : ∀ c ∈ rest.head?, isNameChar c = false := fun c hc =>
      isNameChar_of_isPunctuation (hr c hc)
    have hs : start c := hs
    simp [identifier, either, quotedName, Phrase.char, hquote, plainName, oneOf, hs, run,
      takeWhile_append_of_stop hname hstop, dropWhile_append_of_stop hname hstop]

/-- A name begins like one when case is ignored. -/
theorem Name.startsFolded (n : Name) : n.chars.head?.any isFoldedNameStart := by
  obtain ⟨c, s, hn, hstart, hc, -⟩ := n.exists_cons
  rw [hn]
  exact isFoldedNameStart_of_isNameStart hc hstart

/-- What is read in one way is spelled in one way. -/
theorem read_spelled {β : Type} {p : Phrase β} {b : β} (h : p.read (w ++ rest) = [(b, rest)]) :
    (spelled p).read (w ++ rest) = [(w, rest)] := by
  simp [spelled, h]

/-- A name is read in one way as a segment, where punctuation follows. -/
theorem read_segment (n : Name) (hr : Stops rest) :
    segment.read (n.chars ++ rest) = [(n.chars, rest)] :=
  read_spelled (read_identifier n.plain n.startsFolded hr)

/-- A name that no dot follows is read as it stands. -/
theorem read_qualifiedName (n : Name) (hr : Stops rest)
    (hdot : ∀ c ∈ (rest.dropWhile isBlank).head?, c ≠ '.') :
    qualifiedName.read (n.chars ++ rest) = [(n.chars, rest)] := by
  have habsent :
      (do blanks; Phrase.char '.'; blanks; segment : Phrase (List Char)).read rest = [] := by
    cases h : rest.dropWhile isBlank with
    | nil => simp [blanks, run, Phrase.char, h]
    | cons c s =>
      have hc : c ≠ '.' := hdot c (by simp [h])
      simp [blanks, run, Phrase.char, h, hc]
  refine read_spelled (b := none) ?_
  rw [read_bind, read_segment n hr]
  simpa using read_optional_of_nil habsent

/-! ## References -/

/-- Where no blank stands, blanks are read as nothing. -/
theorem read_blanks (h : ∀ c ∈ rest.head?, isBlank c = false) :
    blanks.read rest = [((), rest)] := by
  have hd : rest.dropWhile isBlank = rest := dropWhile_append_of_stop (List.forall_mem_nil _) h
  simp [blanks, run, hd]

/-- A character is read off the text that it begins. -/
theorem read_char (c : Char) (rest : List Char) :
    (Phrase.char c).read (c :: rest) = [((), rest)] := by
  simp [Phrase.char]

/-- A name in parentheses is read in one way. -/
theorem read_parenthesized (n : Name) (rest : List Char) :
    parenthesized.read ('(' :: (n.chars ++ ')' :: rest)) = [(n.chars, rest)] := by
  have hclose : blanks.read (')' :: rest) = [((), ')' :: rest)] :=
    read_blanks (forall_head?_cons (by decide) rest)
  have hstop : Stops (')' :: rest) := stops_cons rfl rest
  simp [parenthesized, read_char, read_blanks (n.tight.head?_append _), read_segment n hstop,
    hclose]

/-- A reference is read as its table and its column. -/
theorem read_referencesClause (r : Target) (rest : List Char) :
    referencesClause.read (r.chars ++ rest) = [(⟨r.table.chars, r.column.chars⟩, rest)] := by
  have htext : r.chars ++ rest = Keyword.references.written ++ ' ' ::
      (r.table.chars ++ '(' :: (r.column.chars ++ ')' :: rest)) := by
    unfold Target.chars
    simp only [append_cons_append, List.nil_append]
  have hkeyword : (keywords ["references"]).read (r.chars ++ rest) =
      [((), r.table.chars ++ '(' :: (r.column.chars ++ ')' :: rest))] := by
    rw [htext]
    exact read_keywords .references [] (r.table.tight.head?_append _)
  have hname : qualifiedName.read (r.table.chars ++ '(' :: (r.column.chars ++ ')' :: rest)) =
      [(r.table.chars, '(' :: (r.column.chars ++ ')' :: rest))] :=
    read_qualifiedName r.table (stops_cons rfl _) (forall_head?_cons (by decide) _)
  have hopen : blanks.read ('(' :: (r.column.chars ++ ')' :: rest)) =
      [((), '(' :: (r.column.chars ++ ')' :: rest))] :=
    read_blanks (forall_head?_cons (by decide) _)
  simp [referencesClause, hkeyword, hname, hopen, read_parenthesized]

/-- One space is read as blanks where no other blank follows. -/
theorem read_blanks_space (h : ∀ c ∈ rest.head?, isBlank c = false) :
    blanks.read (' ' :: rest) = [((), rest)] := by
  have hd : rest.dropWhile isBlank = rest := dropWhile_append_of_stop (List.forall_mem_nil _) h
  simp [blanks, run, isBlank_space, hd]

/-- A foreign key constraint is read as its column and its target. -/
theorem read_foreignKeyClause (c : Name) (r : Target) (rest : List Char) :
    foreignKeyClause.read ((Item.foreignKey c r).chars ++ rest) =
      [((c.chars, ⟨r.table.chars, r.column.chars⟩), rest)] := by
  have htext : (Item.foreignKey c r).chars ++ rest = Keyword.foreign.written ++ ' ' ::
      (Keyword.key.written ++ ' ' :: '(' :: (c.chars ++ ')' :: ' ' :: (r.chars ++ rest))) := by
    unfold Item.chars key
    simp only [append_cons_append, List.cons_append, List.nil_append]
  have hforeign : (keywords ["foreign"]).read ((Item.foreignKey c r).chars ++ rest) =
      [((), Keyword.key.written ++ ' ' :: '(' ::
        (c.chars ++ ')' :: ' ' :: (r.chars ++ rest)))] := by
    rw [htext]
    exact read_keywords .foreign [] ((tight_written .key).head?_append _)
  have hopen (s : List Char) : blanks.read (' ' :: '(' :: s) = [((), '(' :: s)] :=
    read_blanks_space (forall_head?_cons (by decide) s)
  have htarget : blanks.read (' ' :: (r.chars ++ rest)) = [((), r.chars ++ rest)] :=
    read_blanks_space (r.tight.head?_append rest)
  have hkey (s : List Char) : (keyword "key").read (Keyword.key.written ++ s) = [((), s)] :=
    read_keyword .key s
  simp only [foreignKeyClause, read_bind, hforeign, List.flatMap_cons, List.flatMap_nil,
    List.append_nil, hkey, hopen, read_parenthesized, htarget, read_referencesClause, read_pure]

/-! ## Heads of statements -/

/-- A name is no optional keyword. -/
theorem read_optional_name (n : Name) (k : Keyword) (ks : List String) (hr : Stops rest) :
    (optional (keywords (k.word :: ks))).read (n.chars ++ rest) = [(none, n.chars ++ rest)] :=
  read_optional_of_nil (read_keywords_of_avoids ks ((n.uses []).avoids List.not_mem_nil) hr)

/-- The keywords of a statement are read off its opening, up to the name. -/
theorem read_keywords_opening (verb : Keyword) (t : Name) (rest : List Char) :
    (keywords [verb.word, "table"]).read (opening verb t ++ rest) = [((), t.chars ++ rest)] := by
  unfold opening
  simp only [append_cons_append]
  rw [read_keywords verb _ ((tight_written .table).head?_append _)]
  exact read_keywords .table [] (t.tight.head?_append rest)

/-- The head of a table definition is read as the name of its table. -/
theorem read_createHead (t : Name) (rest : List Char) :
    createHead.read (opening .create t ++ ' ' :: '(' :: rest) = [(t.chars, rest)] := by
  have hcreate : (keywords ["create"]).read (opening .create t ++ ' ' :: '(' :: rest) =
      [((), Keyword.table.written ++ ' ' :: (t.chars ++ ' ' :: '(' :: rest))] := by
    unfold opening
    simp only [append_cons_append]
    exact read_keywords .create [] ((tight_written .table).head?_append _)
  -- None of the options stands between the keywords.
  have havoids (k : Keyword) (hk : k ≠ .table) : Avoids k Keyword.table.written :=
    (uses_written (List.mem_singleton_self _)).avoids (by simpa using hk)
  have hor : (keywords ["or", "replace"]).read (Keyword.table.written ++ ' ' ::
      (t.chars ++ ' ' :: '(' :: rest)) = [] :=
    read_keywords_of_avoids _ (havoids ⟨"or", by decide⟩ (by decide)) (stops_cons rfl _)
  have hscopes : ∀ k ∈ Keyword.scopes, k ≠ .table := by decide
  have hscope : (do keywordOf ["global", "local"]; blanks1 : Phrase Unit).read
      (Keyword.table.written ++ ' ' :: (t.chars ++ ' ' :: '(' :: rest)) = [] :=
    read_keywordOf_of_avoids Keyword.scopes (fun k hk => havoids k (hscopes k hk))
      (stops_cons rfl _)
  have htemporaries : ∀ k ∈ Keyword.temporaries, k ≠ .table := by decide
  have htemporary : (do keywordOf ["temp", "temporary", "unlogged"]; blanks1 : Phrase Unit).read
      (Keyword.table.written ++ ' ' :: (t.chars ++ ' ' :: '(' :: rest)) = [] :=
    read_keywordOf_of_avoids Keyword.temporaries (fun k hk => havoids k (htemporaries k hk))
      (stops_cons rfl _)
  have htable : (keywords ["table"]).read (Keyword.table.written ++ ' ' ::
      (t.chars ++ ' ' :: '(' :: rest)) = [((), t.chars ++ ' ' :: '(' :: rest)] :=
    read_keywords .table [] (t.tight.head?_append _)
  have hstop : Stops (' ' :: '(' :: rest) := stops_cons rfl _
  have hif : (optional (keywords ["if", "not", "exists"])).read (t.chars ++ ' ' :: '(' :: rest) =
      [(none, t.chars ++ ' ' :: '(' :: rest)] :=
    read_optional_name t ⟨"if", by decide⟩ _ hstop
  have hname : qualifiedName.read (t.chars ++ ' ' :: '(' :: rest) =
      [(t.chars, ' ' :: '(' :: rest)] :=
    read_qualifiedName t hstop (forall_head?_cons (by decide) rest)
  have hopen : blanks.read (' ' :: '(' :: rest) = [((), '(' :: rest)] :=
    read_blanks_space (forall_head?_cons (by decide) rest)
  simp only [createHead, read_bind, hcreate, List.flatMap_cons, List.flatMap_nil, List.append_nil,
    read_optional_of_nil hor, read_optional_of_nil hscope, read_optional_of_nil htemporary, htable,
    hif, hname, hopen, read_char, read_pure]

/-- An action begins with a keyword. -/
theorem Action.head?_plain (a : Action) (rest : List Char) :
    ∀ c ∈ (a.chars ++ rest).head?, isPlain c := by
  obtain ⟨k, s, hs⟩ : ∃ (k : Keyword) (s : List Char), a.chars = k.written ++ ' ' :: s := by
    cases a with
    | addColumn d => exact ⟨_, _, rfl⟩
    | dropColumn c => exact ⟨_, _, rfl⟩
  obtain ⟨c, w, hw⟩ := List.exists_cons_of_ne_nil k.written_ne_nil
  have hc : isPlain c := k.plain_written c (by simp [hw])
  rw [hs, hw]
  exact forall_head?_cons hc _

/-- The head of an alteration reaches up to its first action. -/
theorem read_alterHead (t : Name) (a : Action) (rest : List Char) :
    alterHead.read (opening .alter t ++ ' ' :: (a.chars ++ rest)) =
      [(t.chars, a.chars ++ rest)] := by
  have hkeywords : (keywords ["alter", "table"]).read (opening .alter t ++ ' ' ::
      (a.chars ++ rest)) = [((), t.chars ++ ' ' :: (a.chars ++ rest))] :=
    read_keywords_opening .alter t _
  have hstop : Stops (' ' :: (a.chars ++ rest)) := stops_cons rfl _
  have hif : (optional (keywords ["if", "exists"])).read (t.chars ++ ' ' :: (a.chars ++ rest)) =
      [(none, t.chars ++ ' ' :: (a.chars ++ rest))] :=
    read_optional_name t ⟨"if", by decide⟩ _ hstop
  have honly : (optional (keywords ["only"])).read (t.chars ++ ' ' :: (a.chars ++ rest)) =
      [(none, t.chars ++ ' ' :: (a.chars ++ rest))] :=
    read_optional_name t ⟨"only", by decide⟩ _ hstop
  have hdot : ∀ c ∈ ((' ' :: (a.chars ++ rest)).dropWhile isBlank).head?, c ≠ '.' := by
    rw [show (' ' :: (a.chars ++ rest)).dropWhile isBlank = a.chars ++ rest from
      a.tight.dropWhile_padded (List.forall_mem_singleton.2 isBlank_space) rest]
    rintro c hc rfl
    exact absurd (a.head?_plain rest _ hc) (by decide)
  simp only [alterHead, read_bind, hkeywords, List.flatMap_cons, List.flatMap_nil,
    List.append_nil, hif, honly, read_qualifiedName t hstop hdot,
    read_blanks1 (a.tight.head?_append rest), read_pure]

/-- The head of a dropped table is read as its name. -/
theorem read_dropHead (t : Name) (rest : List Char) :
    dropHead.read (opening .drop t ++ ';' :: rest) = [(t.chars, ';' :: rest)] := by
  have hkeywords : (keywords ["drop", "table"]).read (opening .drop t ++ ';' :: rest) =
      [((), t.chars ++ ';' :: rest)] :=
    read_keywords_opening .drop t _
  have hstop : Stops (';' :: rest) := stops_cons rfl _
  have hif : (optional (keywords ["if", "exists"])).read (t.chars ++ ';' :: rest) =
      [(none, t.chars ++ ';' :: rest)] :=
    read_optional_name t ⟨"if", by decide⟩ _ hstop
  have hname : qualifiedName.read (t.chars ++ ';' :: rest) = [(t.chars, ';' :: rest)] :=
    read_qualifiedName t hstop (forall_head?_cons (by decide) rest)
  simp only [dropHead, read_bind, hkeywords, List.flatMap_cons, List.flatMap_nil, List.append_nil,
    hif, hname]

/-- The word that drops a column is not taken for a dropped table. -/
theorem read_dropHead_column (c : Name) (rest : List Char) :
    dropHead.read ((Action.dropColumn c).chars ++ rest) = [] := by
  have hcolumn : Avoids .table Keyword.column.written :=
    (uses_written (List.mem_singleton_self _)).avoids (by decide)
  have hkeywords :
      (keywords ["drop", "table"]).read ((Action.dropColumn c).chars ++ rest) = [] := by
    unfold Action.chars
    simp only [append_cons_append]
    rw [show "drop" = Keyword.drop.word from rfl,
      read_keywords .drop _ ((tight_written .column).head?_append _)]
    exact read_keywords_of_avoids [] hcolumn (stops_cons rfl _)
  simp only [dropHead, read_bind, hkeywords, List.flatMap_nil]

/-! ## Clauses and actions -/

/-- A plain identifier at the head of a clause is the one that the clause begins with. -/
theorem leadingIdentifier?_of_plain (hw : ∀ c ∈ w, isPlain c) (hs : w.head?.any isNameStart)
    (hr : Stops rest) : leadingIdentifier? (w ++ rest) = some ⟨String.ofList w, false⟩ := by
  have hne : w ≠ [] := by
    rintro rfl
    cases hs
  have htrim : trimStart (w ++ rest) = w ++ rest :=
    (tight_of_plain hw hne).dropWhile_padded (List.forall_mem_nil _) rest
  rw [leadingIdentifier?, htrim, best?, read_identifier hw hs hr]
  rfl

/-- The name of a column in a script begins no constraint. -/
theorem isConstraint_name (n : Name) : (Identifier.mk n.text false).isConstraint = false := by
  have hreserved : ∀ k ∈ constraintWords, k ∈ reservedWords := by decide
  simp only [Identifier.isConstraint, isConstraintWord, PlainName.text, String.toList_ofList,
    Bool.not_false, Bool.true_and, List.any_eq_false, beq_iff_eq]
  intro k hk he
  exact n.unreserved (List.mem_map.2 ⟨k, hreserved k hk, he⟩)

/-- The clause of a column begins with its name. -/
theorem Column.leadingIdentifier? (d : Column) (rest : List Char) :
    Migration.leadingIdentifier? (d.declared ++ rest) = some ⟨d.name.text, false⟩ := by
  unfold Column.declared
  rw [append_cons_append]
  exact leadingIdentifier?_of_plain d.name.plain d.name.head?_any_isNameStart (stops_cons rfl _)

/-- A key constraint begins with its keyword. -/
theorem leadingIdentifier?_key (kind : Keyword) (hs : kind.written.head?.any isNameStart) (c : Name)
    (rest : List Char) :
    leadingIdentifier? (key kind c ++ rest) = some ⟨String.ofList kind.written, false⟩ := by
  unfold key
  rw [append_cons_append]
  exact leadingIdentifier?_of_plain kind.plain_written hs (stops_cons rfl _)

/-- A keyword that begins a constraint is known as such. -/
theorem isConstraint_written {k : Keyword} (h : k.word ∈ constraintWords) :
    (Identifier.mk (String.ofList k.written) false).isConstraint := by
  simp only [Identifier.isConstraint, isConstraintWord, String.toList_ofList, Bool.not_false,
    Bool.true_and, k.map_toLower_written, List.any_eq_true, beq_iff_eq]
  exact ⟨k.word, h, rfl⟩

/-- A phrase that may be absent is read with it or without it. -/
theorem read_optional_of_read {β : Type} {p : Phrase β} {b : β} {s : List Char}
    (h : p.read s = [(b, rest)]) : (optional p).read s = [(some b, rest), (none, s)] := by
  change (p.read s).flatMap _ ++ _ = _
  rw [h]
  rfl

/-- An added column is read with the keyword that says so. -/
theorem best?_addAction (d : Column) :
    ∃ s, addAction.best? (Action.addColumn d).chars = some (⟨true, ⟨d.name.text, false⟩⟩, s) := by
  obtain ⟨s, hs⟩ : ∃ s, d.chars = d.name.chars ++ ' ' :: s := by
    refine ⟨d.type.chars ++ d.target.elim [] fun r => ' ' :: r.chars, ?_⟩
    unfold Column.chars Column.declared
    rw [append_cons_append]
  have hadd : (keywords ["add"]).read (Action.addColumn d).chars =
      [((), Keyword.column.written ++ ' ' :: d.chars)] :=
    read_keywords .add [] ((tight_written .column).head?_append _)
  have hcolumn : (keywords ["column"]).read (Keyword.column.written ++ ' ' :: d.chars) =
      [((), d.name.chars ++ ' ' :: s)] := by
    rw [hs]
    exact read_keywords .column [] (d.name.tight.head?_append _)
  have hif : (optional (keywords ["if", "not", "exists"])).read (d.name.chars ++ ' ' :: s) =
      [(none, d.name.chars ++ ' ' :: s)] :=
    read_optional_name d.name ⟨"if", by decide⟩ _ (stops_cons rfl s)
  have hstop : Stops (' ' :: s) := stops_cons rfl s
  have hname : (identifier isFoldedNameStart).read (d.name.chars ++ ' ' :: s) =
      [(⟨d.name.text, false⟩, ' ' :: s)] :=
    read_identifier d.name.plain d.name.startsFolded hstop
  refine ⟨' ' :: s, ?_⟩
  simp only [addAction, best?, read_bind, hadd, read_optional_of_read hcolumn,
    List.flatMap_cons, List.flatMap_nil, List.append_nil, hif, hname,
    read_pure, List.cons_append, List.head?_cons, Option.isSome_some]

/-- Dropping a column adds nothing. -/
theorem best?_addAction_dropColumn (c : Name) :
    addAction.best? (Action.dropColumn c).chars = none := by
  have hdrop : Avoids .add Keyword.drop.written :=
    (uses_written (List.mem_singleton_self _)).avoids (by decide)
  have hadd : (keywords ["add"]).read (Action.dropColumn c).chars = [] :=
    read_keywords_of_avoids [] hdrop (stops_cons rfl _)
  simp only [addAction, best?, read_bind, hadd, List.flatMap_nil, List.head?_nil]

/-! ## What names mean -/

/-- A name denotes itself as a column. -/
theorem columnOf_name (n : Name) : columnOf n.chars = n.text := by
  have hquote : betweenQuotes? n.chars = none := by
    cases h : n.chars with
    | nil => rfl
    | cons c s =>
      have hc : isPlain c := n.plain c (by simp [h])
      have hne : c ≠ '"' := by
        rintro rfl
        exact absurd hc (by decide)
      simp [betweenQuotes?, hne]
  rw [columnOf, unquote, n.tight.trim_eq, hquote]
  rfl

/-- A name denotes itself as a table. -/
theorem nameOf_name (n : Name) : nameOf n.chars = n.text := by
  have hdot : ∀ c ∈ n.chars.reverse, decide (c ≠ '.') := by
    intro c hc
    have hc : isPlain c := n.plain c (List.mem_reverse.1 hc)
    rw [decide_eq_true_eq]
    rintro rfl
    exact absurd hc (by decide)
  have hlast : afterLastDot n.chars = n.chars := by
    have htake : (n.chars.reverse ++ []).takeWhile (· ≠ '.') = n.chars.reverse :=
      takeWhile_append_of_stop hdot (by rintro _ ⟨⟩)
    rw [List.append_nil] at htake
    rw [afterLastDot, htake, List.reverse_reverse]
  rw [nameOf, objectName, hlast]
  exact columnOf_name n

end SchemaDrift.Script
