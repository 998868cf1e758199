import SchemaDrift.Proofs.Migration.Phrases

/-!
# Clauses and actions of a script

What the clauses of a table definition and the actions of a table alteration say: `clauseFacts_item`
and `actionFacts_action` give the facts that each was written for, and `bodyFacts_items` and
`actionsFacts_actions` those of whole lists.
-/

namespace SchemaDrift.Script

open Text Scan Migration Phrase

/-! ## Phrases that are searched for -/

/-- The head of a table definition opens with its keyword. -/
theorem opens_createHead : Opens .create createHead :=
  ⟨[], _, rfl⟩

/-- The head of a table alteration opens with its keyword. -/
theorem opens_alterHead : Opens .alter alterHead :=
  ⟨["table"], _, rfl⟩

/-- The head of a dropped table opens with its keyword. -/
theorem opens_dropHead : Opens .drop dropHead :=
  ⟨["table"], _, rfl⟩

/-- A reference opens with its keyword. -/
theorem opens_referencesClause : Opens .references referencesClause :=
  ⟨[], _, rfl⟩

/-- A foreign key constraint opens with its keyword. -/
theorem opens_foreignKeyClause : Opens .foreign foreignKeyClause :=
  ⟨[], _, rfl⟩

/-- A search for a phrase passes over a text in which its keyword does not occur. -/
theorem passes_of_worded {β : Type} {p : Phrase β} {k : Keyword} {ks : List Keyword}
    {s : List Char} (hp : Opens k p) (hs : Worded (Uses ks) s) (hk : ks.contains k = false) :
    Passes p s :=
  hp.passes_worded (hs.mono fun _ hw => hw.avoids (by simpa using hk))

/-! ## Lists of clauses -/

/-- Reading a list of clauses reads each of them. -/
theorem flatMap_splitTopLevel {β : Type} (f : List Char → List β) {x : List Char}
    {xs : List (List Char)} (hn : ∀ y ∈ x :: xs, Nested [',', ';'] y)
    (ht : ∀ y ∈ x :: xs, Tight y) :
    (splitTopLevel .sql ',' (commaSeparated (x :: xs))).flatMap (fun y => f (trim y)) =
      (x :: xs).flatMap f := by
  rw [List.forall_mem_cons] at ht
  have htrim : ∀ y ∈ xs, f (trim (' ' :: y)) = f y := fun y hy =>
    congrArg f (ht.2 y hy).trim_space
  rw [splitTopLevel_commaSeparated hn, List.flatMap_cons, List.flatMap_cons, ht.1.trim_eq,
    List.flatMap_map]
  congr 1
  exact List.flatMap_congr htrim

/-- Texts without blanks at their ends, separated by commas, have none at their ends together. -/
theorem tight_commaSeparated {x : List Char} {xs : List (List Char)} (h : ∀ y ∈ x :: xs, Tight y) :
    Tight (commaSeparated (x :: xs)) := by
  induction xs generalizing x with
  | nil => simpa [commaSeparated] using h
  | cons y xs ih =>
    rw [List.forall_mem_cons] at h
    rw [commaSeparated_cons_cons]
    exact h.1.between [',', ' '] (ih h.2)

/-! ## Clauses of a table definition -/

/-- What a clause of the definition of a table says. A column says nothing here of the column it
refers to. -/
def Item.facts (table : Name) : Item → List Fact
  | column d => [.column table.text d.name.text]
  | primaryKey _ => []
  | foreignKey c r => [.foreignKey (edge table c r)]

/-- A primary key declares no foreign key. -/
theorem foreignKeyIn?_primaryKey (c : Name) : foreignKeyIn? (Item.primaryKey c).chars = none := by
  have hpass := passes_of_worded opens_foreignKeyClause (key_worded .primary c) rfl
  change (hits foreignKeyClause 0 (key .primary c)).head?.map _ = none
  rw [hpass.hits_eq_nil]
  rfl

/-- A foreign key constraint declares the foreign key that it is written for. -/
theorem foreignKeyIn?_foreignKey (c : Name) (r : Target) :
    foreignKeyIn? (Item.foreignKey c r).chars =
      some (c.chars, ⟨r.table.chars, r.column.chars⟩) := by
  have hread := read_foreignKeyClause c r []
  have hhits := opens_foreignKeyClause.hits_phrase 0 (Item.foreignKey c r).tight.ne_nil
    (by rw [best?, hread]; rfl) (.inl (by rintro _ ⟨⟩))
  rw [List.append_nil] at hhits
  change (hits foreignKeyClause 0 _).head?.map _ = _
  rw [hhits]
  rfl

/-- A clause of a table definition says what it is written for. -/
theorem clauseFacts_item (t : Name) (i : Item) : clauseFacts t.text i.chars = i.facts t := by
  cases i with
  | column d =>
    have hlead : leadingIdentifier? (Item.column d).chars = some ⟨d.name.text, false⟩ :=
      d.leadingIdentifier? _
    simp [clauseFacts, hlead, isConstraint_name, Item.facts]
  | primaryKey c =>
    have hlead : leadingIdentifier? (Item.primaryKey c).chars =
        some ⟨String.ofList Keyword.primary.written, false⟩ := by
      rw [← List.append_nil (Item.primaryKey c).chars]
      exact leadingIdentifier?_key .primary (by decide) c []
    have hconstraint := isConstraint_written (by decide : Keyword.primary.word ∈ constraintWords)
    simp [clauseFacts, hlead, hconstraint, constraintFacts, foreignKeyIn?_primaryKey, Item.facts]
  | foreignKey c r =>
    have hlead : leadingIdentifier? (Item.foreignKey c r).chars =
        some ⟨String.ofList Keyword.foreign.written, false⟩ :=
      leadingIdentifier?_key .foreign (by decide) c (' ' :: r.chars)
    have hconstraint := isConstraint_written (by decide : Keyword.foreign.word ∈ constraintWords)
    simp [clauseFacts, hlead, hconstraint, constraintFacts, foreignKeyIn?_foreignKey, Item.facts,
      columnOf_name, nameOf_name, edge]

/-- The clauses of a table definition say what they are written for. -/
theorem bodyFacts_items (t : Name) (items : List Item) :
    bodyFacts t.text (commaSeparated (items.map Item.chars)) = items.flatMap (Item.facts t) := by
  cases items with
  | nil => rfl
  | cons i is =>
    have hn : ∀ y ∈ i.chars :: is.map Item.chars, Nested [',', ';'] y := by
      simpa using ⟨i.nested, fun j _ => j.nested⟩
    have ht : ∀ y ∈ i.chars :: is.map Item.chars, Tight y := by
      simpa using ⟨i.tight, fun j _ => j.tight⟩
    have hbody := tight_commaSeparated ht
    have hne : (trim (commaSeparated (i.chars :: is.map Item.chars))).isEmpty = false := by
      rw [hbody.trim_eq]
      simpa using hbody.ne_nil
    rw [List.map_cons, bodyFacts, hne, if_neg (by simp), flatMap_splitTopLevel _ hn ht,
      ← List.map_cons, List.flatMap_map]
    simp only [clauseFacts_item]

/-! ## Actions of a table alteration -/

/-- A reference as it is read. -/
def Target.reading (r : Target) : Reference :=
  ⟨r.table.chars, r.column.chars⟩

/-- A reference behind a text without one is found where it stands. -/
theorem hits_reference {x : List Char} (hx : Passes referencesClause x) (i : Nat) (r : Target)
    (rest : List Char) :
    hits referencesClause i (x ++ ' ' :: (r.chars ++ rest)) =
      ⟨i + x.length + 1, i + x.length + 1 + r.chars.length, r.reading, rest⟩ ::
        hits referencesClause (i + x.length + 1 + r.chars.length) rest := by
  have hread : referencesClause.best? (r.chars ++ rest) = some (r.reading, rest) := by
    rw [best?, read_referencesClause]
    rfl
  have hend : ∀ c ∈ r.chars.getLast?, isPunctuation c := by
    have hlast : r.chars.getLast? = some ')' := by
      unfold Target.chars
      simp [List.getLast?_append, List.getLast?_cons]
    rw [hlast]
    rintro _ ⟨⟩
    rfl
  rw [hx i _ (stops_cons rfl _), opens_referencesClause.hits_punctuation ' ' rfl]
  exact opens_referencesClause.hits_phrase _ r.tight.ne_nil hread (.inr hend)

/-- What an action on a table says. -/
def Action.facts (table : Name) : Action → List Fact
  | addColumn d => .column table.text d.name.text :: (d.edge? table).toList.map .foreignKey
  | dropColumn c =>
    [.notice (.ignoredAction table.text (abbreviate (Action.dropColumn c).chars))]

/-- An added column up to the reference. -/
def Column.added (d : Column) : List Char :=
  Keyword.add.written ++ ' ' :: (Keyword.column.written ++ ' ' :: d.declared)

/-- An action that adds a column is written as the column and its reference. -/
theorem Action.chars_addColumn (d : Column) :
    (Action.addColumn d).chars = d.added ++ d.target.elim [] fun r => ' ' :: r.chars := by
  unfold Action.chars Column.added Column.chars
  simp only [append_cons_append]

/-- No reference is found in an added column before the one at its end. -/
theorem Column.passes_added (d : Column) : Passes referencesClause d.added := by
  have hwords : Worded (Uses [.add, .column]) d.added :=
    .cons (uses_written (by simp)) (.cons (uses_written (by simp)) (d.declared_worded _) rfl) rfl
  exact passes_of_worded opens_referencesClause hwords rfl

/-- The reference of an added column is the one that it is written with. -/
theorem referenceIn?_addColumn (d : Column) :
    referenceIn? (Action.addColumn d).chars = d.target.map Target.reading := by
  change (hits referencesClause 0 _).head?.map _ = _
  rw [Action.chars_addColumn]
  cases d.target with
  | none =>
    rw [Option.elim_none, List.append_nil, d.passes_added.hits_eq_nil]
    rfl
  | some r =>
    have hhits := hits_reference d.passes_added 0 r []
    rw [List.append_nil] at hhits
    rw [Option.elim_some, hhits]
    rfl

/-- Dropping a column changes columns. -/
theorem touchesColumns_dropColumn (c : Name) : touchesColumns (Action.dropColumn c).chars :=
  rfl

/-- An action says what it is written for. -/
theorem actionFacts_action (t : Name) (a : Action) : actionFacts t.text a.chars = a.facts t := by
  cases a with
  | addColumn d =>
    obtain ⟨s, hadd⟩ := best?_addAction d
    have hedge : (referenceIn? (Action.addColumn d).chars).map (fun r => Fact.foreignKey
        ⟨t.text, d.name.text, nameOf r.table, columnOf r.column⟩) =
        (d.edge? t).map .foreignKey := by
      rw [referenceIn?_addColumn, Column.edge?]
      cases d.target with
      | none => rfl
      | some r => simp [Target.reading, edge, nameOf_name, columnOf_name]
    simp only [actionFacts, hadd, Bool.not_true, Bool.false_and, Bool.false_eq_true, if_false,
      hedge, Action.facts]
    cases d.edge? t <;> rfl
  | dropColumn c =>
    rw [actionFacts, best?_addAction_dropColumn, touchesColumns_dropColumn]
    rfl

end SchemaDrift.Script
