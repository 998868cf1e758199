import SchemaDrift.Proofs.Migration.Passes

/-!
# References in a script

The pass over references reads a text with the text before it at hand (`inlineFrom`): the clause
that a reference ends is found by going back from it (`clauseBefore_append`), and the table is the
last one defined before it. Over one clause the pass gives the foreign key of its column
(`inlineFrom_item`), over an alteration nothing (`inlineFrom_action`), and so over a whole script
the foreign keys of the columns in table definitions (`inlineFacts_render`).
-/

namespace SchemaDrift.Script

open Text Scan Migration Phrase

variable {x pre rest : List Char}

/-! ## Going back to the beginning of a clause -/

/-- The search backwards goes through a nested text: its parentheses match, and outside them stands
nothing that ends the search. -/
theorem clauseBackwards_nested {seps : List Char} (h : Nested seps x) (depth : Nat)
    (hsep : depth = 0 → ',' ∈ seps ∧ ';' ∈ seps) (s : List Char) :
    clauseBackwards depth (x.reverse ++ s) = x.reverse ++ clauseBackwards depth s := by
  induction h generalizing depth s with
  | nil => rfl
  | @symbol seps y c _ hc hmem ih =>
    have hopen : c ≠ '(' := by
      rintro rfl
      exact absurd hc (by decide)
    have hclose : c ≠ ')' := by
      rintro rfl
      exact absurd hc (by decide)
    have hno : ¬((c = ',' ∨ c = ';') ∧ depth = 0) := by
      rintro ⟨rfl | rfl, hd⟩
      · exact hmem (hsep hd).1
      · exact hmem (hsep hd).2
    have hstep : clauseBackwards depth (c :: s) = c :: clauseBackwards depth s := by
      rw [clauseBackwards.eq_def depth (c :: s)]
      simp only [if_neg hclose, if_neg hopen, if_neg hno]
    rw [List.reverse_cons, List.append_assoc, List.singleton_append, ih depth hsep, hstep,
      List.append_assoc, List.singleton_append]
  | group _ _ ihx ih =>
    have hinner (d : Nat) : d + 1 = 0 → ',' ∈ ([] : List Char) ∧ ';' ∈ [] := nofun
    simp [clauseBackwards, ih depth hsep, ihx (depth + 1) (hinner depth)]

/-- A text behind which a clause begins. -/
def AtClause (pre : List Char) : Prop :=
  ∀ c ∈ clauseBackwards 0 pre.reverse, isBlank c

/-- A clause begins behind an opening parenthesis. -/
theorem atClause_parenthesis (s : List Char) : AtClause (s ++ ['(']) := by
  simp [AtClause, clauseBackwards]

/-- A clause begins behind a comma and a space. -/
theorem atClause_comma (s : List Char) : AtClause (s ++ [',', ' ']) := by
  simp [AtClause, clauseBackwards, isBlank_space]

/-- Going back from the end of a clause gives the clause. -/
theorem clauseBefore_append (hpre : AtClause pre) (hx : Nested [',', ';'] x) (ht : Tight x) :
    clauseBefore (pre ++ (x ++ [' '])) = x := by
  have hspace : Nested [',', ';'] (x ++ [' ']) :=
    hx.append (.symbol .nil rfl (by simp))
  have hback := clauseBackwards_nested hspace 0 (fun _ => by simp) pre.reverse
  have hblank : ∀ c ∈ (clauseBackwards 0 pre.reverse).reverse, isBlank c := fun c hc =>
    hpre c (List.mem_reverse.1 hc)
  rw [clauseBefore, List.reverse_append, hback, List.reverse_append, List.reverse_reverse]
  exact ht.trim_padded hblank (List.forall_mem_singleton.2 isBlank_space)

/-! ## The pass over references -/

/-- What the pass over references says of a text, given the text before it. -/
def inlineFrom (heads : List (Occurrence (List Char))) (spans : List (Nat × Nat))
    (pre s : List Char) : List Fact :=
  ((hits referencesClause pre.length s).filter fun o => !covered spans o.start).flatMap
    (referenceFacts heads (pre ++ s))

/-- The references of a text are found by a pass from its start. -/
theorem inlineFacts_eq (sql : List Char) :
    inlineFacts sql = inlineFrom (tableHeads sql) (alterSpans sql) [] sql :=
  rfl

variable {heads : List (Occurrence (List Char))} {spans : List (Nat × Nat)}

/-- The pass goes through a text in which no reference begins. -/
theorem inlineFrom_passes (hx : Passes referencesClause x) (hr : Stops rest) :
    inlineFrom heads spans pre (x ++ rest) = inlineFrom heads spans (pre ++ x) rest := by
  rw [inlineFrom, hx _ _ hr, inlineFrom, List.length_append, List.append_assoc]

/-- The pass goes through punctuation. -/
theorem inlineFrom_punctuation (c : Char) (hc : isPunctuation c) :
    inlineFrom heads spans pre (c :: rest) = inlineFrom heads spans (pre ++ [c]) rest := by
  rw [inlineFrom, opens_referencesClause.hits_punctuation c hc, inlineFrom, List.length_append,
    List.append_assoc]
  rfl

/-- The pass goes through a statement in which no reference begins. -/
theorem inlineFrom_line {s : Statement} (hs : Passes referencesClause s.chars) (rest : List Char) :
    inlineFrom heads spans pre (s.line ++ rest) = inlineFrom heads spans (pre ++ s.line) rest := by
  rw [inlineFrom, hits_line opens_referencesClause hs, inlineFrom, List.length_append,
    List.append_assoc]

/-- A reference says what it says where it stands, unless an alteration covers it. -/
theorem inlineFrom_reference (hx : Passes referencesClause x) (r : Target) :
    inlineFrom heads spans pre (x ++ ' ' :: (r.chars ++ rest)) =
      (if covered spans (pre.length + x.length + 1) then [] else
        referenceFacts heads (pre ++ (x ++ ' ' :: (r.chars ++ rest)))
          ⟨pre.length + x.length + 1, pre.length + x.length + 1 + r.chars.length, r.reading,
            rest⟩) ++
      inlineFrom heads spans (pre ++ (x ++ ' ' :: r.chars)) rest := by
  have hpos : (pre ++ (x ++ ' ' :: r.chars)).length =
      pre.length + x.length + 1 + r.chars.length := by
    simp
    omega
  rw [inlineFrom, hits_reference hx, List.filter_cons, inlineFrom, hpos, List.append_assoc,
    append_cons_append]
  cases covered spans (pre.length + x.length + 1) <;> simp

/-- What a reference at the end of a clause of a table definition says: nothing if the clause is a
constraint, which the pass over table definitions has read. -/
theorem referenceFacts_clause (hpre : AtClause pre) (hx : Nested [',', ';'] x) (ht : Tight x)
    {i : Identifier} (hlead : leadingIdentifier? x = some i) {t : String} {position stop : Nat}
    (hposition : position = pre.length + x.length + 1)
    (htable : tableBefore? heads position = some t) (r : Target) :
    referenceFacts heads (pre ++ (x ++ ' ' :: (r.chars ++ rest)))
        ⟨position, stop, r.reading, rest⟩ =
      if i.isConstraint then [] else [.foreignKey ⟨t, i.name, r.table.text, r.column.text⟩] := by
  have htake : (pre ++ (x ++ ' ' :: (r.chars ++ rest))).take position = pre ++ (x ++ [' ']) := by
    have hsplit : pre ++ (x ++ ' ' :: (r.chars ++ rest)) =
        (pre ++ (x ++ [' '])) ++ (r.chars ++ rest) := by simp
    rw [hsplit, hposition]
    exact List.take_left' (by simp [Nat.add_assoc])
  simp only [referenceFacts, edgeFacts, htake, clauseBefore_append hpre hx ht, hlead, htable, Target.reading,
    nameOf_name, columnOf_name]

/-! ## Table definitions -/

/-- What the pass over references says of a clause of a table definition. -/
def Item.inline (table : Name) : Item → List Fact
  | column d => (d.edge? table).toList.map .foreignKey
  | _ => []

/-- The positions of a statement, in none of the spans and behind the head of its table. -/
def Defines (heads : List (Occurrence (List Char))) (spans : List (Nat × Nat)) (a b : Nat)
    (t : Name) : Prop :=
  ∀ j, a < j → j < b → covered spans j = false ∧ tableBefore? heads j = some t.text

/-- A clause that ends with a reference. -/
theorem inlineFrom_clause {a b : Nat} {t : Name} (h : Defines heads spans a b t)
    (hpre : AtClause pre) (hx : Nested [',', ';'] x) (ht : Tight x)
    (hpass : Passes referencesClause x) {i : Identifier} (hlead : leadingIdentifier? x = some i)
    (r : Target) (ha : a ≤ pre.length) (hb : pre.length + (x ++ ' ' :: r.chars).length ≤ b)
    (rest : List Char) :
    inlineFrom heads spans pre ((x ++ ' ' :: r.chars) ++ rest) =
      (if i.isConstraint then [] else
        [.foreignKey ⟨t.text, i.name, r.table.text, r.column.text⟩]) ++
      inlineFrom heads spans (pre ++ (x ++ ' ' :: r.chars)) rest := by
  have hpositive : 0 < r.chars.length := List.length_pos_iff.2 r.tight.ne_nil
  rw [List.length_append, List.length_cons] at hb
  obtain ⟨hout, htable⟩ := h (pre.length + x.length + 1) (by omega) (by omega)
  rw [append_cons_append, inlineFrom_reference hpass r, hout, if_neg (by decide),
    referenceFacts_clause hpre hx ht hlead rfl htable]

/-- The pass says of a clause of a table definition what its reference declares. -/
theorem inlineFrom_item {a b : Nat} {t : Name} (h : Defines heads spans a b t) (i : Item)
    (hpre : AtClause pre) (ha : a ≤ pre.length) (hb : pre.length + i.chars.length ≤ b)
    (hr : Stops rest) :
    inlineFrom heads spans pre (i.chars ++ rest) =
      i.inline t ++ inlineFrom heads spans (pre ++ i.chars) rest := by
  cases i with
  | column d =>
    have hpass := passes_of_worded opens_referencesClause (d.declared_worded []) rfl
    cases hd : d.target with
    | none =>
      have hchars : (Item.column d).chars = d.declared := by
        unfold Item.chars Column.chars
        simp [hd]
      rw [hchars, inlineFrom_passes hpass hr]
      simp [Item.inline, Column.edge?, hd]
    | some r =>
      have hchars : (Item.column d).chars = d.declared ++ ' ' :: r.chars := by
        unfold Item.chars Column.chars
        simp [hd]
      have hlead := d.leadingIdentifier? []
      rw [List.append_nil] at hlead
      rw [hchars] at hb ⊢
      rw [inlineFrom_clause h hpre d.declared_nested d.declared_tight hpass hlead r ha hb rest]
      simp [isConstraint_name, Item.inline, Column.edge?, hd, edge]
  | primaryKey c =>
    have hpass := passes_of_worded opens_referencesClause (key_worded .primary c) rfl
    exact inlineFrom_passes hpass hr
  | foreignKey c r =>
    have hpass := passes_of_worded opens_referencesClause (key_worded .foreign c) rfl
    have hlead : leadingIdentifier? (key .foreign c) =
        some ⟨String.ofList Keyword.foreign.written, false⟩ := by
      rw [← List.append_nil (key .foreign c)]
      exact leadingIdentifier?_key .foreign (by decide) c []
    have hconstraint := isConstraint_written (by decide : Keyword.foreign.word ∈ constraintWords)
    have hclause := inlineFrom_clause h hpre (key_nested .foreign c) (key_tight .foreign c) hpass
      hlead r ha hb rest
    rw [if_pos hconstraint] at hclause
    exact hclause

/-- The pass over a list of clauses, given a step over one clause where it may begin. -/
theorem inlineFrom_commaSeparated {α : Type} {chars : α → List Char} {m : α → List Fact}
    (begins : List Char → Prop) (hcomma : ∀ s, begins (s ++ [',', ' '])) {a b : Nat}
    (hstep : ∀ (x : α) (pre rest : List Char), begins pre → a ≤ pre.length →
      pre.length + (chars x).length ≤ b → Stops rest →
      inlineFrom heads spans pre (chars x ++ rest) =
        m x ++ inlineFrom heads spans (pre ++ chars x) rest)
    (xs : List α) (hpre : begins pre) (ha : a ≤ pre.length)
    (hb : pre.length + (commaSeparated (xs.map chars)).length ≤ b) (hr : Stops rest) :
    inlineFrom heads spans pre (commaSeparated (xs.map chars) ++ rest) =
      xs.flatMap m ++ inlineFrom heads spans (pre ++ commaSeparated (xs.map chars)) rest := by
  induction xs generalizing pre with
  | nil => simp [commaSeparated]
  | cons x xs ih =>
    cases xs with
    | nil =>
      have hone : commaSeparated ([x].map chars) = chars x := by simp [commaSeparated]
      rw [hone] at hb ⊢
      simpa using hstep x pre rest hpre ha hb hr
    | cons y xs =>
      have hmore : commaSeparated ((x :: y :: xs).map chars) =
          chars x ++ ',' :: ' ' :: commaSeparated ((y :: xs).map chars) :=
        commaSeparated_cons_cons ..
      have hnext : (pre ++ chars x ++ [',', ' ']).length = pre.length + (chars x).length + 2 := by
        simp [Nat.add_assoc]
      rw [hmore] at hb ⊢
      simp only [List.length_append, List.length_cons] at hb
      rw [append_cons_append, List.cons_append, hstep x pre _ hpre ha (by omega)
        (stops_cons rfl _), inlineFrom_punctuation ',' rfl, inlineFrom_punctuation ' ' rfl,
        List.append_assoc (pre ++ chars x)]
      rw [show [','] ++ [' '] = [',', ' '] from rfl, ih (hcomma _) (by omega) (by omega)]
      simp

/-- The pass says of a table definition what the references of its clauses declare. -/
theorem inlineFrom_create {t : Name} {items : List Item}
    (h : Defines heads spans pre.length (pre.length + (Statement.create t items).line.length) t)
    (rest : List Char) :
    inlineFrom heads spans pre ((Statement.create t items).line ++ rest) =
      items.flatMap (Item.inline t) ++
        inlineFrom heads spans (pre ++ (Statement.create t items).line) rest := by
  have hline : (Statement.create t items).line ++ rest = opening .create t ++ ' ' :: '(' ::
      (commaSeparated (items.map Item.chars) ++ ')' :: ';' :: '\n' :: rest) := by
    simp [Statement.line, Statement.chars]
  have hopening := passes_of_worded opens_referencesClause (opening_worded .create t) rfl
  have hbody : (pre ++ opening .create t ++ [' '] ++ ['(']).length +
      (commaSeparated (items.map Item.chars)).length ≤
      pre.length + (Statement.create t items).line.length := by
    simp [Statement.line, Statement.chars]
    omega
  have hend : pre ++ opening .create t ++ [' '] ++ ['('] ++ commaSeparated (items.map Item.chars) ++
      [')'] ++ [';'] ++ ['\n'] = pre ++ (Statement.create t items).line := by
    simp [Statement.line, Statement.chars]
  rw [hline, inlineFrom_passes hopening (stops_cons rfl _), inlineFrom_punctuation ' ' rfl,
    inlineFrom_punctuation '(' rfl,
    inlineFrom_commaSeparated AtClause atClause_comma
      (fun i _ _ hpre ha hb hr => inlineFrom_item h i hpre ha hb hr) items
      (atClause_parenthesis _) (by simp) hbody (stops_cons rfl _),
    inlineFrom_punctuation ')' rfl, inlineFrom_punctuation ';' rfl,
    inlineFrom_punctuation '\n' rfl, hend]

/-! ## Table alterations -/

/-- Every position of an action lies in the span of its alteration, so its reference is left to the
pass over alterations. -/
theorem inlineFrom_action {a b : Nat} (h : ∀ j, a ≤ j → j < b → covered spans j) (c : Action)
    (ha : a ≤ pre.length) (hb : pre.length + c.chars.length ≤ b) (hr : Stops rest) :
    inlineFrom heads spans pre (c.chars ++ rest) =
      inlineFrom heads spans (pre ++ c.chars) rest := by
  cases c with
  | addColumn d =>
    have hchars := Action.chars_addColumn d
    cases hd : d.target with
    | none =>
      rw [hd, Option.elim_none, List.append_nil] at hchars
      rw [hchars]
      exact inlineFrom_passes d.passes_added hr
    | some r =>
      rw [hd, Option.elim_some] at hchars
      rw [hchars] at hb ⊢
      have hpositive : 0 < r.chars.length := List.length_pos_iff.2 r.tight.ne_nil
      rw [List.length_append, List.length_cons] at hb
      rw [append_cons_append, inlineFrom_reference d.passes_added r,
        if_pos (h _ (by omega) (by omega)), List.nil_append]
  | dropColumn c =>
    have hpass := passes_of_worded opens_referencesClause (Action.worded_dropColumn c) rfl
    exact inlineFrom_passes hpass hr

/-- The pass says nothing of an alteration, which its span covers. -/
theorem inlineFrom_alter {t : Name} {c : Action} {cs : List Action}
    (h : ∀ j, pre.length ≤ j → j < pre.length + (Statement.alter t c cs).chars.length →
      covered spans j) (rest : List Char) :
    inlineFrom heads spans pre ((Statement.alter t c cs).line ++ rest) =
      inlineFrom heads spans (pre ++ (Statement.alter t c cs).line) rest := by
  have hline : (Statement.alter t c cs).line ++ rest = opening .alter t ++ ' ' ::
      (commaSeparated ((c :: cs).map Action.chars) ++ ';' :: '\n' :: rest) := by
    simp [Statement.line, Statement.chars]
  have hopening := passes_of_worded opens_referencesClause (opening_worded .alter t) rfl
  have hactions : (pre ++ opening .alter t ++ [' ']).length +
      (commaSeparated ((c :: cs).map Action.chars)).length ≤
      pre.length + (Statement.alter t c cs).chars.length := by
    simp [Statement.chars]
    omega
  have hend : pre ++ opening .alter t ++ [' '] ++ commaSeparated ((c :: cs).map Action.chars) ++
      [';'] ++ ['\n'] = pre ++ (Statement.alter t c cs).line := by
    simp [Statement.line, Statement.chars]
  have hsilent : (c :: cs).flatMap (fun _ => ([] : List Fact)) = [] := by simp
  rw [hline, inlineFrom_passes hopening (stops_cons rfl _), inlineFrom_punctuation ' ' rfl,
    inlineFrom_commaSeparated (m := fun _ => []) (fun _ => True) (fun _ => trivial)
      (fun d _ _ _ ha hb hr => inlineFrom_action h d ha hb hr) (c :: cs)
      trivial (by simp) hactions (stops_cons rfl _), hsilent, List.nil_append,
    inlineFrom_punctuation ';' rfl, inlineFrom_punctuation '\n' rfl, hend]

/-! ## Whole scripts -/

/-- A table definition lies outside the alterations of its script. -/
theorem covered_create (done : List Statement) (t : Name) (items : List Item)
    (ss : List Statement) {j : Nat} (ha : (render done).length < j)
    (hb : j < (render done).length + (Statement.create t items).line.length) :
    covered ((found alterAt 0 (done ++ .create t items :: ss)).map spanOf) j = false := by
  obtain ⟨before, hfound, hbefore⟩ := found_append alterAt 0 done (.create t items :: ss)
  have hcreate (i : Nat) : found alterAt i (.create t items :: ss) =
      found alterAt (i + (Statement.create t items).line.length) ss := rfl
  rw [hfound, hcreate, covered, List.any_eq_false]
  intro span hspan
  obtain ⟨o, ho, rfl⟩ := List.mem_map.1 hspan
  rcases List.mem_append.1 ho with ho | ho
  · obtain ⟨i, s, rest, hmem, hend⟩ := hbefore o ho
    have hlength : s.chars.length ≤ s.line.length := by simp [Statement.line]
    rw [spanOf_of_mem_alterAt hmem]
    simp only [Bool.and_eq_true, decide_eq_true_eq]
    omega
  · obtain ⟨i, s, rest, hmem, hle, -⟩ := exists_of_mem_found ho
    rw [spanOf_of_mem_alterAt hmem]
    simp only [Bool.and_eq_true, decide_eq_true_eq]
    omega

/-- The table defined last before a position in a table definition is the one it defines. -/
theorem tableBefore?_create (done : List Statement) (t : Name) (items : List Item)
    (ss : List Statement) {j : Nat} (ha : (render done).length < j)
    (hb : j < (render done).length + (Statement.create t items).line.length) :
    tableBefore? (found headAt 0 (done ++ .create t items :: ss)) j = some t.text := by
  obtain ⟨before, hfound, -⟩ := found_append headAt 0 done (.create t items :: ss)
  have hlater : (found headAt (0 + (render done).length +
      (Statement.create t items).line.length) ss).filter (fun o => o.start < j) = [] := by
    rw [List.filter_eq_nil_iff]
    intro o ho
    obtain ⟨i, s, rest, hmem, hle, -⟩ := exists_of_mem_found ho
    rw [start_of_mem_headAt hmem, decide_eq_true_eq]
    omega
  rw [tableBefore?, hfound, found, headAt, List.singleton_append, List.filter_append,
    List.filter_cons, hlater]
  simp [nameOf_name, ha]

/-- The positions of a table definition in a script are in no alteration, and its table is the last
one defined before them. -/
theorem defines_create (done : List Statement) (t : Name) (items : List Item)
    (ss : List Statement) :
    Defines (found headAt 0 (done ++ .create t items :: ss))
      ((found alterAt 0 (done ++ .create t items :: ss)).map spanOf) (render done).length
      ((render done).length + (Statement.create t items).line.length) t :=
  fun _ ha hb => ⟨covered_create done t items ss ha hb, tableBefore?_create done t items ss ha hb⟩

/-- A table alteration lies in its span. -/
theorem covered_alter (done : List Statement) (t : Name) (c : Action) (cs : List Action)
    (ss : List Statement) {j : Nat} (ha : (render done).length ≤ j)
    (hb : j < (render done).length + (Statement.alter t c cs).chars.length) :
    covered ((found alterAt 0 (done ++ .alter t c cs :: ss)).map spanOf) j := by
  obtain ⟨before, hfound, -⟩ := found_append alterAt 0 done (.alter t c cs :: ss)
  obtain ⟨o, ho⟩ : ∃ o, o ∈ alterAt (0 + (render done).length) (.alter t c cs) (render ss) :=
    ⟨_, List.mem_singleton_self _⟩
  rw [covered, List.any_eq_true]
  refine ⟨spanOf o, List.mem_map_of_mem ?_, ?_⟩
  · rw [hfound]
    exact List.mem_append_right _ (List.mem_append_left _ ho)
  · rw [spanOf_of_mem_alterAt ho]
    simp only [Bool.and_eq_true, decide_eq_true_eq]
    omega

/-- What the pass over references says of a statement. -/
def Statement.inline : Statement → List Fact
  | create t items => items.flatMap (Item.inline t)
  | _ => []

/-- The run over the rest of a script, by induction on it: what was read before is text that the
pass may go back to. -/
theorem inlineFrom_render (done ss : List Statement) :
    inlineFrom (found headAt 0 (done ++ ss)) ((found alterAt 0 (done ++ ss)).map spanOf)
      (render done) (render ss) = ss.flatMap Statement.inline := by
  induction ss generalizing done with
  | nil => rfl
  | cons s ss ih =>
    have hnext := ih (done ++ [s])
    rw [List.append_assoc, List.singleton_append, render_append, render_cons s [],
      show render [] = [] from rfl, List.append_nil] at hnext
    rw [render_cons, List.flatMap_cons, ← hnext]
    cases s with
    | create t items => exact inlineFrom_create (defines_create done t items ss) (render ss)
    | alter t c cs =>
      exact inlineFrom_alter (fun _ ha hb => covered_alter done t c cs ss ha hb) (render ss)
    | drop t =>
      have hpass := passes_of_worded opens_referencesClause (Statement.worded_drop t) rfl
      exact inlineFrom_line hpass (render ss)

/-- The pass over a script says what the references of its table definitions declare. -/
theorem inlineFacts_render (ss : List Statement) :
    inlineFacts (render ss) = ss.flatMap Statement.inline := by
  rw [inlineFacts_eq, tableHeads_render, alterSpans_render]
  exact inlineFrom_render [] ss

end SchemaDrift.Script
