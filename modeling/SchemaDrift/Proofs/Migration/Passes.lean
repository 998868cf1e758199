import SchemaDrift.Proofs.Migration.Clauses

/-!
# Passes over a script

Each of the passes over the text of a script finds what it looks for in the statements written for
it, and only there: a step over one statement (`hits_createHead`, `hits_alterHead`,
`hits_dropHead`) gives the run over all of them (`hits_render`). So the heads found are those of
the table definitions, the spans those of the alterations, and the notices those of the dropped
tables.
-/

namespace SchemaDrift.Script

open Text Scan Migration Phrase

variable {β γ : Type} {p : Phrase β}

/-! ## Steps and runs -/

/-- What a pass finds in a script from a position on, given what it finds in a statement at a
position with a text behind it. -/
def found (f : Nat → Statement → List Char → List (Occurrence β)) :
    Nat → List Statement → List (Occurrence β)
  | _, [] => []
  | i, s :: ss => f i s (render ss) ++ found f (i + s.line.length) ss

/-- A search of a script finds what it finds in each statement, if it goes through the lines one by
one. -/
theorem hits_render {f : Nat → Statement → List Char → List (Occurrence β)}
    (h : ∀ i s rest, hits p i (s.line ++ rest) = f i s rest ++ hits p (i + s.line.length) rest)
    (i : Nat) (ss : List Statement) : hits p i (render ss) = found f i ss := by
  induction ss generalizing i with
  | nil => rfl
  | cons s ss ih => rw [render, List.flatMap_cons, h, found, ← ih, render]

/-- A run says what its steps say. -/
theorem flatMap_found {f : Nat → Statement → List Char → List (Occurrence β)}
    {g : Occurrence β → List γ} {m : Statement → List γ}
    (h : ∀ i s rest, (f i s rest).flatMap g = m s) (i : Nat) (ss : List Statement) :
    (found f i ss).flatMap g = ss.flatMap m := by
  induction ss generalizing i with
  | nil => rfl
  | cons s ss ih => rw [found, List.flatMap_append, h, ih, List.flatMap_cons]

/-- A script of two parts is written as one part and then the other. -/
theorem render_append (ss ss' : List Statement) : render (ss ++ ss') = render ss ++ render ss' :=
  List.flatMap_append

/-- A script is written line by line. -/
theorem render_cons (s : Statement) (ss : List Statement) :
    render (s :: ss) = s.line ++ render ss :=
  List.flatMap_cons

/-- What is found in a script stands in one of its statements. -/
theorem exists_of_mem_found {f : Nat → Statement → List Char → List (Occurrence β)}
    {o : Occurrence β} {i : Nat} {ss : List Statement} (h : o ∈ found f i ss) :
    ∃ j s rest, o ∈ f j s rest ∧ i ≤ j ∧ j + s.line.length ≤ i + (render ss).length := by
  induction ss generalizing i with
  | nil => cases h
  | cons s ss ih =>
    rw [render_cons, List.length_append]
    rcases List.mem_append.1 h with h | h
    · exact ⟨i, s, render ss, h, Nat.le_refl i, by omega⟩
    · obtain ⟨j, s', rest, hmem, hle, hend⟩ := ih h
      exact ⟨j, s', rest, hmem, by omega, by omega⟩

/-- What is found in the first statements of a script lies before what is found in the others. -/
theorem found_append (f : Nat → Statement → List Char → List (Occurrence β)) (i : Nat)
    (ss ss' : List Statement) :
    ∃ before, found f i (ss ++ ss') = before ++ found f (i + (render ss).length) ss' ∧
      ∀ o ∈ before, ∃ j s rest, o ∈ f j s rest ∧
        j + s.line.length ≤ i + (render ss).length := by
  induction ss generalizing i with
  | nil => exact ⟨[], rfl, List.forall_mem_nil _⟩
  | cons s ss ih =>
    obtain ⟨before, hfound, hbefore⟩ := ih (i + s.line.length)
    have hnext : i + (render (s :: ss)).length = i + s.line.length + (render ss).length := by
      rw [render_cons, List.length_append]
      omega
    refine ⟨f i s (render (ss ++ ss')) ++ before, ?_, ?_⟩
    · rw [List.cons_append, found, hfound, hnext, List.append_assoc]
    · rw [hnext]
      refine List.forall_mem_append.2 ⟨fun o ho => ⟨i, s, _, ho, by omega⟩, hbefore⟩

/-- A search that passes over a statement goes on behind its line. -/
theorem hits_line {k : Keyword} (hp : Opens k p) {s : Statement} (hs : Passes p s.chars) (i : Nat)
    (rest : List Char) : hits p i (s.line ++ rest) = hits p (i + s.line.length) rest := by
  have hline : s.line ++ rest = s.chars ++ ';' :: '\n' :: rest := List.append_assoc ..
  rw [hline, hs i _ (stops_cons rfl _), hp.hits_punctuation ';' rfl, hp.hits_punctuation '\n' rfl,
    Statement.line, List.length_append]
  rfl

/-- A statement without the keyword of a phrase is passed over. -/
theorem hits_line_of_worded {k : Keyword} {ks : List Keyword} (hp : Opens k p) {s : Statement}
    (hs : Worded (Uses ks) s.chars) (hk : ks.contains k = false) (i : Nat) (rest : List Char) :
    hits p i (s.line ++ rest) = hits p (i + s.line.length) rest :=
  hits_line hp (passes_of_worded hp hs hk) i rest

/-! ## Table definitions -/

/-- The head of a table definition. -/
def headAt (i : Nat) : Statement → List Char → List (Occurrence (List Char))
  | .create t items, rest => [⟨i, i + (opening .create t ++ [' ', '(']).length, t.chars,
      commaSeparated (items.map Item.chars) ++ ')' :: ';' :: '\n' :: rest⟩]
  | _, _ => []

/-- The head of a table definition is found at the start of one, and nowhere else in a statement. -/
theorem hits_createHead (i : Nat) (s : Statement) (rest : List Char) :
    hits createHead i (s.line ++ rest) = headAt i s rest ++
      hits createHead (i + s.line.length) rest := by
  cases s with
  | create t items =>
    have hline : (Statement.create t items).line ++ rest = (opening .create t ++ [' ', '(']) ++
        (commaSeparated (items.map Item.chars) ++ ')' :: ';' :: '\n' :: rest) := by
      simp [Statement.line, Statement.chars]
    have hread : createHead.best? ((opening .create t ++ [' ', '(']) ++
        (commaSeparated (items.map Item.chars) ++ ')' :: ';' :: '\n' :: rest)) =
        some (t.chars, commaSeparated (items.map Item.chars) ++ ')' :: ';' :: '\n' :: rest) := by
      rw [List.append_assoc]
      exact congrArg List.head? (read_createHead t _)
    have hparenthesis : ∀ c ∈ (opening .create t ++ [' ', '(']).getLast?, isPunctuation c := by
      simp [isPunctuation, punctuation]
    have hbody := passes_of_worded opens_createHead (Item.worded_commaSeparated items) rfl
    rw [hline, opens_createHead.hits_phrase i (by simp) hread (.inr hparenthesis),
      hbody _ _ (stops_cons rfl _), opens_createHead.hits_punctuation ')' rfl,
      opens_createHead.hits_punctuation ';' rfl, opens_createHead.hits_punctuation '\n' rfl]
    have hend : i + (opening .create t ++ [' ', '(']).length +
        (commaSeparated (items.map Item.chars)).length + 1 + 1 + 1 =
        i + (Statement.create t items).line.length := by
      simp [Statement.line, Statement.chars]
      omega
    rw [hend, headAt, List.singleton_append]
  | alter t a as =>
    exact hits_line_of_worded opens_createHead (Statement.worded_alter t a as) rfl i rest
  | drop t =>
    exact hits_line_of_worded opens_createHead (Statement.worded_drop t) rfl i rest

/-- The head of a table definition starts where its statement does. -/
theorem start_of_mem_headAt {i : Nat} {s : Statement} {rest : List Char}
    {o : Occurrence (List Char)} (h : o ∈ headAt i s rest) : o.start = i := by
  cases s with
  | create t items => rw [List.mem_singleton.1 h]
  | alter t a as => cases h
  | drop t => cases h

/-- The heads found in a script are those of its table definitions. -/
theorem tableHeads_render (ss : List Statement) : tableHeads (render ss) = found headAt 0 ss :=
  hits_render hits_createHead 0 ss

/-- What the pass over table definitions says of a statement. -/
def Statement.definition : Statement → List Fact
  | create t items => .table t.text :: items.flatMap (Item.facts t)
  | _ => []

/-- The table definitions of a script say what they are written for. -/
theorem createFacts_render (ss : List Statement) :
    createFacts (render ss) = ss.flatMap Statement.definition := by
  rw [createFacts, tableHeads_render]
  refine flatMap_found (fun i s rest => ?_) 0 ss
  cases s with
  | create t items =>
    have hbody : enclosed? .sql ('(' :: (commaSeparated (items.map Item.chars) ++
        ')' :: ';' :: '\n' :: rest)) = some (commaSeparated (items.map Item.chars)) :=
      enclosed?_nested (Item.nested_commaSeparated items) _
    simp only [headAt, List.flatMap_cons, List.flatMap_nil, List.append_nil, definitionFacts,
      nameOf_name, hbody, bodyFacts_items, Statement.definition]
  | alter t a as => rfl
  | drop t => rfl

/-! ## Table alterations -/

/-- The head of a table alteration. -/
def alterAt (i : Nat) : Statement → List Char → List (Occurrence (List Char))
  | .alter t a as, rest => [⟨i, i + (opening .alter t ++ [' ']).length, t.chars,
      commaSeparated ((a :: as).map Action.chars) ++ ';' :: '\n' :: rest⟩]
  | _, _ => []

/-- The head of an alteration is found at the start of one, and nowhere else in a statement. -/
theorem hits_alterHead (i : Nat) (s : Statement) (rest : List Char) :
    hits alterHead i (s.line ++ rest) = alterAt i s rest ++
      hits alterHead (i + s.line.length) rest := by
  cases s with
  | create t items =>
    exact hits_line_of_worded opens_alterHead (Statement.worded_create t items) rfl i rest
  | alter t a as =>
    have hline : (Statement.alter t a as).line ++ rest = (opening .alter t ++ [' ']) ++
        (commaSeparated ((a :: as).map Action.chars) ++ ';' :: '\n' :: rest) := by
      simp [Statement.line, Statement.chars]
    have hread : alterHead.best? ((opening .alter t ++ [' ']) ++
        (commaSeparated ((a :: as).map Action.chars) ++ ';' :: '\n' :: rest)) =
        some (t.chars, commaSeparated ((a :: as).map Action.chars) ++ ';' :: '\n' :: rest) := by
      rw [List.append_assoc, List.map_cons, commaSeparated_cons, List.append_assoc a.chars]
      exact congrArg List.head? (read_alterHead t a _)
    have hspace : ∀ c ∈ (opening .alter t ++ [' ']).getLast?, isPunctuation c := by
      simp [isPunctuation, punctuation]
    have hactions := passes_of_worded opens_alterHead (Action.worded_commaSeparated (a :: as)) rfl
    have hend : i + (opening .alter t ++ [' ']).length +
        (commaSeparated ((a :: as).map Action.chars)).length + 1 + 1 =
        i + (Statement.alter t a as).line.length := by
      simp [Statement.line, Statement.chars]
      omega
    rw [hline, opens_alterHead.hits_phrase i (by simp) hread (.inr hspace),
      hactions _ _ (stops_cons rfl _), opens_alterHead.hits_punctuation ';' rfl,
      opens_alterHead.hits_punctuation '\n' rfl, hend, alterAt, List.singleton_append]
  | drop t =>
    exact hits_line_of_worded opens_alterHead (Statement.worded_drop t) rfl i rest

/-- The alterations found in a script are those that are written in it. -/
theorem alterHeads_render (ss : List Statement) : alterHeads (render ss) = found alterAt 0 ss :=
  hits_render hits_alterHead 0 ss

/-- An alteration is read up to the semicolon behind it. -/
theorem statement_actions (actions : List Action) (rest : List Char) :
    statement .sql (commaSeparated (actions.map Action.chars) ++ ';' :: rest) =
      commaSeparated (actions.map Action.chars) :=
  statement_nested (Action.nested_commaSeparated actions) rest

/-- Where a table alteration begins and ends. -/
def spanOf (o : Occurrence (List Char)) : Nat × Nat :=
  (o.start, o.stop + (statement .sql o.rest).length)

/-- The span of an alteration is its whole statement, up to the semicolon. -/
theorem spanOf_of_mem_alterAt {i : Nat} {s : Statement} {rest : List Char}
    {o : Occurrence (List Char)} (h : o ∈ alterAt i s rest) :
    spanOf o = (i, i + s.chars.length) := by
  cases s with
  | create t items => cases h
  | alter t a as =>
    rw [List.mem_singleton.1 h, spanOf, statement_actions]
    simp [Statement.chars]
    omega
  | drop t => cases h

/-- The spans of a script are those of its alterations. -/
theorem alterSpans_render (ss : List Statement) :
    alterSpans (render ss) = (found alterAt 0 ss).map spanOf := by
  rw [alterSpans, alterHeads_render]
  rfl

/-- What the pass over table alterations says of a statement. -/
def Statement.alteration : Statement → List Fact
  | alter t a as => (a :: as).flatMap (Action.facts t)
  | _ => []

/-- The alterations of a script say what they are written for. -/
theorem alterFacts_render (ss : List Statement) :
    alterFacts (render ss) = ss.flatMap Statement.alteration := by
  rw [alterFacts, alterHeads_render]
  refine flatMap_found (fun i s rest => ?_) 0 ss
  cases s with
  | create t items => rfl
  | alter t a as =>
    have hn : ∀ y ∈ a.chars :: as.map Action.chars, Nested [',', ';'] y := by
      simpa using ⟨a.nested, fun b _ => b.nested⟩
    have ht : ∀ y ∈ a.chars :: as.map Action.chars, Tight y := by
      simpa using ⟨a.tight, fun b _ => b.tight⟩
    simp only [alterAt, List.flatMap_cons, List.flatMap_nil, List.append_nil, statement_actions,
      nameOf_name, Statement.alteration]
    rw [List.map_cons, flatMap_splitTopLevel (actionFacts t.text) hn ht, List.flatMap_cons,
      List.flatMap_map, actionFacts_action]
    simp only [actionFacts_action]
  | drop t => rfl

/-! ## Dropped tables -/

/-- A dropped table. -/
def dropAt (i : Nat) : Statement → List Char → List (Occurrence (List Char))
  | .drop t, rest => [⟨i, i + (opening .drop t).length, t.chars, ';' :: '\n' :: rest⟩]
  | _, _ => []

/-- A search passes over texts separated by commas if it passes over each of them. -/
theorem passes_commaSeparated {k : Keyword} (hp : Opens k p) {xs : List (List Char)}
    (h : ∀ x ∈ xs, Passes p x) : Passes p (commaSeparated xs) := by
  have hnil : Passes p [] := fun _ _ _ => rfl
  induction xs with
  | nil => exact hnil
  | cons x xs ih =>
    rw [List.forall_mem_cons] at h
    cases xs with
    | nil => simpa [commaSeparated] using h.1
    | cons y xs =>
      rw [commaSeparated_cons_cons]
      exact hp.passes_append h.1 (hp.passes_append hnil (ih h.2) rfl) rfl

/-- A column that is dropped is no table that is dropped: the keyword is refused, since another
word follows it. -/
theorem Action.passes_dropHead (a : Action) : Passes dropHead a.chars := by
  cases a with
  | addColumn d =>
    exact passes_of_worded opens_dropHead (Action.worded_addColumn d) rfl
  | dropColumn c =>
    intro i rest hr
    have hwords : Worded (Uses [.column]) (Keyword.column.written ++ ' ' :: c.chars) :=
      .cons (uses_written (by simp)) (.word (c.uses _)) rfl
    have hcolumn := passes_of_worded opens_dropHead hwords rfl
    have hread := read_dropHead_column c rest
    have htext : (Action.dropColumn c).chars ++ rest = Keyword.drop.written ++ ' ' ::
        ((Keyword.column.written ++ ' ' :: c.chars) ++ rest) := by
      unfold Action.chars
      rw [append_cons_append]
    have hend : i + Keyword.drop.written.length + 1 +
        (Keyword.column.written ++ ' ' :: c.chars).length =
        i + (Action.dropColumn c).chars.length := by
      unfold Action.chars
      simp only [List.length_append, List.length_cons]
      omega
    rw [htext] at hread ⊢
    rw [opens_dropHead.hits_refused i (Keyword.plain_written _) (stops_cons rfl _) hread,
      opens_dropHead.hits_punctuation ' ' rfl, hcolumn _ _ hr, hend]

/-- The head of a dropped table is found at the start of its statement, and nowhere else in a
statement. -/
theorem hits_dropHead (i : Nat) (s : Statement) (rest : List Char) :
    hits dropHead i (s.line ++ rest) = dropAt i s rest ++
      hits dropHead (i + s.line.length) rest := by
  cases s with
  | create t items =>
    exact hits_line_of_worded opens_dropHead (Statement.worded_create t items) rfl i rest
  | alter t a as =>
    have hopening := passes_of_worded opens_dropHead (opening_worded .alter t) rfl
    have hactions : ∀ x ∈ (a :: as).map Action.chars, Passes dropHead x := by
      intro x hx
      obtain ⟨b, -, rfl⟩ := List.mem_map.1 hx
      exact b.passes_dropHead
    have hpass : Passes dropHead (Statement.alter t a as).chars :=
      opens_dropHead.passes_append hopening (passes_commaSeparated opens_dropHead hactions) rfl
    exact hits_line opens_dropHead hpass i rest
  | drop t =>
    have hline : (Statement.drop t).line ++ rest = opening .drop t ++ ';' :: '\n' :: rest :=
      List.append_assoc ..
    have hread : dropHead.best? (opening .drop t ++ ';' :: '\n' :: rest) =
        some (t.chars, ';' :: '\n' :: rest) :=
      congrArg List.head? (read_dropHead t _)
    have hne : opening .drop t ≠ [] := by simp [opening]
    have hend : i + (opening .drop t).length + 1 + 1 =
        i + (Statement.drop t).line.length := by
      unfold Statement.line
      rw [List.length_append]
      rfl
    rw [hline, opens_dropHead.hits_phrase i hne hread (.inl (stops_cons rfl _)),
      opens_dropHead.hits_punctuation ';' rfl, opens_dropHead.hits_punctuation '\n' rfl, hend,
      dropAt, List.singleton_append]

/-- What the pass over dropped tables says of a statement. -/
def Statement.dropping : Statement → List Fact
  | drop t => [.notice (.ignoredDrop t.text)]
  | _ => []

/-- The dropped tables of a script say what they are written for. -/
theorem dropFacts_render (ss : List Statement) :
    dropFacts (render ss) = ss.flatMap Statement.dropping := by
  have hfound : occurrences (atWordStart dropHead) (render ss) = found dropAt 0 ss :=
    hits_render hits_dropHead 0 ss
  rw [dropFacts, hfound, List.map_eq_flatMap]
  refine flatMap_found (fun i s rest => ?_) 0 ss
  cases s with
  | create t items => rfl
  | alter t a as => rfl
  | drop t => simp only [dropAt, List.flatMap_cons, List.flatMap_nil, List.append_nil, nameOf_name,
      Statement.dropping]

end SchemaDrift.Script
