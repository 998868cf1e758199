import SchemaDrift.Proofs.Migration.Exact
import SchemaDrift.Proofs.Migration.LiteralFacts
import SchemaDrift.Proofs.Migration.Names
import SchemaDrift.Proofs.Scan.Parts

/-!
# Table bodies

A clause is judged by the identifier that it begins with behind its blanks (`BeginsWith`,
`leadingIdentifier?_eq_some_iff`). A clause that begins with none is reported, one that begins with
the word of a constraint declares at most a foreign key, and any other one is a column
(`column_mem_clauseFacts` and the lemmas next to it).

If the clauses of a body are closed they are found again, whatever commas their brackets and
literals hold. So a body says what its clauses say, about its own table only
(`record_bodyFacts_closed`).
-/

namespace SchemaDrift.Migration

open SchemaDrift.Text SchemaDrift.Scan Phrase
open SchemaDrift.Script.Statement (diagnosticOf?)

variable {clause s t rest : List Char} {i : Identifier} {table u column : String}
  {clauses : List (List Char)} {key : ForeignKey} {fk : List Char × Reference}

/-! ## Leading identifiers -/

/-- An identifier begins and ends with characters that are not blank. -/
theorem Segment.tight_of_isNameStart (g : Segment isNameStart) : Tight g.spelling :=
  g.tight fun _ hc => isBlank_of_isNameChar (isNameChar_of_isNameStart hc)

/-- A text begins with an identifier if a segment that spells it ends somewhere in the text. -/
def BeginsWith (t : List Char) (i : Identifier) : Prop :=
  ∃ (g : Segment isNameStart) (rest : List Char),
    t = g.spelling ++ rest ∧ g.EndsBefore rest ∧ g.identifier = i

/-- The identifier of a clause is the one that the clause begins with behind its blanks. -/
theorem leadingIdentifier?_eq_some_iff :
    leadingIdentifier? clause = some i ↔ BeginsWith (trimStart clause) i := by
  rw [leadingIdentifier?, Option.map_eq_some_iff]
  constructor
  · rintro ⟨r, hr, rfl⟩
    obtain ⟨g, hg, hs, hend⟩ := exists_of_mem_read_identifier (List.mem_of_head? hr)
    exact ⟨g, r.2, hs, hend, hg.symm⟩
  · rintro ⟨g, rest, hs, hend, rfl⟩
    exact ⟨(g.identifier, rest), by rw [best?, hs, g.read (by decide) hend]; rfl, rfl⟩

/-- Blanks at the end of a text do not matter for the identifier that it begins with. -/
theorem beginsWith_trimEnd : BeginsWith (trimEnd t) i ↔ BeginsWith t i := by
  constructor
  · rintro ⟨g, rest, hs, hend, hi⟩
    obtain ⟨b, hb, ht⟩ := exists_of_trimEnd t
    refine ⟨g, rest ++ b, by rw [← List.append_assoc, ← hs, ← ht], fun hplain c hc => ?_, hi⟩
    cases rest with
    | nil =>
      rw [List.nil_append] at hc
      exact isNameChar_of_isBlank (hb c (List.mem_of_head? hc))
    | cons d rest => exact hend hplain c hc
  · rintro ⟨g, rest, rfl, hend, hi⟩
    refine ⟨g, trimEnd rest, g.tight_of_isNameStart.trimEnd_append rest, ?_, hi⟩
    intro hplain c hc
    obtain ⟨b, hb⟩ := prefix_of_trimEnd rest
    refine hend hplain c ?_
    rw [← hb, List.head?_append, Option.mem_def.1 hc]
    rfl

/-- Trimming a clause does not change the identifier that it begins with. -/
theorem leadingIdentifier?_trim (clause : List Char) :
    leadingIdentifier? (trim clause) = leadingIdentifier? clause := by
  refine Option.ext fun i => ?_
  rw [leadingIdentifier?_eq_some_iff, leadingIdentifier?_eq_some_iff, trimStart_trim, trim,
    beginsWith_trimEnd]

/-! ## One clause -/

/-- A foreign key constraint stands somewhere in a clause, and not within a word. -/
def Declares (clause : List Char) (fk : List Char × Reference) : Prop :=
  ∃ u v rest, clause = u ++ v ∧ u.getLast?.any isWord = false ∧
    (fk, rest) ∈ foreignKeyClause.read v

/-- What is found as a foreign key in a clause is declared there. -/
theorem declares_of_foreignKeyIn? (h : foreignKeyIn? clause = some fk) : Declares clause fk := by
  obtain ⟨o, ho, rfl⟩ := Option.map_eq_some_iff.1 h
  obtain ⟨u, v, rfl, -, hread, -⟩ := exists_of_mem_search (List.mem_of_head? ho)
  rw [Option.or_none] at hread
  obtain ⟨hword, hread⟩ := exists_of_best?_atWordStart hread
  exact ⟨u, v, o.rest, rfl, hword, hread⟩

/-- A clause in which no foreign key is found declares none. -/
theorem not_declares_of_foreignKeyIn? (h : foreignKeyIn? clause = none) : ¬ Declares clause fk := by
  rintro ⟨u, v, rest, rfl, hword, hread⟩
  have hne : v ≠ [] := by
    obtain ⟨w, hw, hv, -⟩ := definite_foreignKeyClause v _ hread
    rw [hv]
    exact List.append_ne_nil_of_left_ne_nil hw _
  have hnil : occurrences (atWordStart foreignKeyClause) (u ++ v) = [] :=
    List.head?_eq_none_iff.1 (Option.map_eq_none_iff.1 h)
  have hnone := best?_eq_none_of_search hne hnil
  rw [Option.or_none, atWordStart, hword, if_neg Bool.false_ne_true, best?,
    List.head?_eq_none_iff] at hnone
  rw [hnone] at hread
  cases hread

/-- The foreign key that a constraint declares for a table. -/
def keyOf (table : String) (fk : List Char × Reference) : ForeignKey :=
  ⟨table, columnOf fk.1, nameOf fk.2.table, columnOf fk.2.column⟩

/-- The facts of a constraint are the foreign key that is found in it, if there is one. -/
theorem mem_constraintFacts {f : Fact} : f ∈ constraintFacts table clause ↔
    ∃ fk, foreignKeyIn? clause = some fk ∧ f = .foreignKey (keyOf table fk) := by
  rw [constraintFacts, Option.mem_toList, Option.map_eq_some_iff]
  exact exists_congr fun fk => and_congr_right fun _ => eq_comm

/-- A clause names no table. -/
theorem table_not_mem_clauseFacts : .table u ∉ clauseFacts table clause := by
  rw [clauseFacts]
  split
  · simp
  · split
    · simp [mem_constraintFacts]
    · simp

/-- A clause is a column if it begins with an identifier that begins no constraint. -/
theorem column_mem_clauseFacts : .column u column ∈ clauseFacts table clause ↔
    u = table ∧ ∃ i, leadingIdentifier? clause = some i ∧ i.isConstraint = false ∧
      i.name = column := by
  rw [clauseFacts]
  cases leadingIdentifier? clause with
  | none => simp
  | some i =>
    cases hi : i.isConstraint with
    | true => simp [hi, mem_constraintFacts]
    | false =>
      simp only [hi, Bool.false_eq_true, if_false, List.mem_singleton, Fact.column.injEq,
        Option.some.injEq]
      constructor
      · rintro ⟨rfl, rfl⟩
        exact ⟨rfl, i, rfl, hi, rfl⟩
      · rintro ⟨rfl, i, rfl, -, rfl⟩
        exact ⟨rfl, rfl⟩

/-- A clause declares a foreign key if it begins a constraint and holds one. -/
theorem foreignKey_mem_clauseFacts : .foreignKey key ∈ clauseFacts table clause ↔
    ∃ i fk, leadingIdentifier? clause = some i ∧ i.isConstraint ∧ foreignKeyIn? clause = some fk ∧
      key = keyOf table fk := by
  rw [clauseFacts]
  cases leadingIdentifier? clause with
  | none => simp
  | some i =>
    cases hi : i.isConstraint with
    | true => simp [hi, mem_constraintFacts]
    | false => simp [hi]

/-- A clause is noticed if it begins with no identifier, and only then. -/
theorem filterMap_notice?_clauseFacts (table : String) (clause : List Char) :
    (clauseFacts table clause).filterMap Fact.notice? =
      if leadingIdentifier? clause = none then [.unreadClause table (abbreviate clause)]
      else [] := by
  rw [clauseFacts]
  cases leadingIdentifier? clause with
  | none => rfl
  | some i =>
    cases hi : i.isConstraint with
    | true =>
      simp only [hi, if_true, reduceCtorEq, if_false, List.filterMap_eq_nil_iff]
      intro f hf
      obtain ⟨fk, -, rfl⟩ := mem_constraintFacts.1 hf
      rfl
    | false => simp [hi, Fact.notice?]

/-! ## Whole bodies -/

/-- A body that is made of closed clauses says what the clauses say. -/
theorem bodyFacts_intercalate (table : String)
    (hclosed : ∀ clause ∈ clauses, ClosedPart .sql ',' clause)
    (hbody : trim ([','].intercalate clauses) ≠ []) :
    bodyFacts table ([','].intercalate clauses) =
      clauses.flatMap fun clause => clauseFacts table (trim clause) := by
  have hne : clauses ≠ [] := by
    rintro rfl
    exact hbody rfl
  rw [bodyFacts, splitTopLevel_intercalate (by decide) hne hclosed, if_neg]
  rwa [List.isEmpty_iff]

/-- The diagnostic of a clause that begins with no identifier. -/
def unreadDiagnostic (source table : String) (clause : List Char) : Diagnostic :=
  ⟨source, .parseSkip, table ++ ": unrecognized clause `" ++ abbreviate (trim clause) ++ "`"⟩

/-- The clauses that begin with no identifier are reported, each once and in order. -/
theorem diagnostics_clauses (source table : String) (clauses : List (List Char)) :
    (clauses.flatMap fun clause => clauseFacts table (trim clause)).filterMap
        (diagnosticOf? source) =
      (clauses.filter fun clause => leadingIdentifier? clause = none).map
        (unreadDiagnostic source table) := by
  induction clauses with
  | nil => rfl
  | cons clause clauses ih =>
    have hclause : (clauseFacts table (trim clause)).filterMap (diagnosticOf? source) =
        if leadingIdentifier? clause = none then [unreadDiagnostic source table clause]
        else [] := by
      have hnotices := filterMap_notice?_clauseFacts table (trim clause)
      rw [leadingIdentifier?_trim] at hnotices
      have hdiagnostics : ((clauseFacts table (trim clause)).filterMap Fact.notice?).filterMap
          (·.diagnostic? source) =
            (clauseFacts table (trim clause)).filterMap (diagnosticOf? source) :=
        List.filterMap_filterMap
      rw [← hdiagnostics, hnotices]
      split <;> rfl
    rw [List.flatMap_cons, List.filterMap_append, hclause, ih, List.filter_cons]
    by_cases hi : leadingIdentifier? clause = none <;> simp [hi]

/-- A name with its letters in lower case. -/
def Identifier.lowerName (i : Identifier) : String :=
  String.ofList (i.name.toList.map Char.toLower)

/-- A constraint begins with one of eight words, in any case and not quoted. -/
theorem Identifier.isConstraint_iff (i : Identifier) : i.isConstraint ↔ i.quoted = false ∧
    i.lowerName ∈
      ["primary", "foreign", "unique", "check", "constraint", "index", "exclude", "like"] := by
  have hword : isConstraintWord i.name.toList ↔ i.lowerName ∈ constraintWords := by
    rw [isConstraintWord, List.any_eq_true]
    simp only [beq_iff_eq, Identifier.lowerName]
    constructor
    · rintro ⟨w, hw, he⟩
      rwa [← he, String.ofList_toList]
    · exact fun h => ⟨_, h, String.toList_ofList⟩
  rw [Identifier.isConstraint, Bool.and_eq_true, hword, Bool.not_eq_true']
  rfl

/-- An identifier begins no constraint if it is quoted or its name is none of the eight words. -/
theorem Identifier.isConstraint_eq_false_iff (i : Identifier) :
    i.isConstraint = false ↔ i.quoted ∨ i.lowerName ∉
      ["primary", "foreign", "unique", "check", "constraint", "index", "exclude", "like"] := by
  rw [← Bool.not_eq_true, i.isConstraint_iff, not_and_or, Bool.not_eq_false]

/-- A body that is made of closed clauses is recorded exactly. Its table gets the identifiers that
its clauses begin with, those apart that are not quoted and are one of the eight words that begin a
constraint, in any case; a foreign key is declared by a clause that begins with such a word and
holds one, and by nothing else; each clause that begins with no identifier is reported; and other
tables and whatever was recorded or reported before stay as they were. -/
theorem record_bodyFacts_closed (table source : String) (s : Schema) (earlier : List Fact)
    (clauses : List (List Char)) (hclosed : ∀ clause ∈ clauses, ClosedPart .sql ',' clause)
    (hbody : trim ([','].intercalate clauses) ≠ []) :
    let found := bodyFacts table ([','].intercalate clauses)
    let after := found.foldl Schema.record s
    let keywords :=
      ["primary", "foreign", "unique", "check", "constraint", "index", "exclude", "like"]
    (∀ clause i, leadingIdentifier? clause = some i ↔ BeginsWith (trimStart clause) i) ∧
    (∀ clause, (∀ fk, foreignKeyIn? clause = some fk → Declares clause fk) ∧
      (foreignKeyIn? clause = none → ∀ fk, ¬ Declares clause fk)) ∧
    (∀ column, column ∈ after.columns.columnsOf table ↔
      column ∈ s.columns.columnsOf table ∨ ∃ clause ∈ clauses, ∃ i,
        leadingIdentifier? clause = some i ∧ (i.quoted ∨ i.lowerName ∉ keywords) ∧
          i.name = column) ∧
    (∀ u ≠ table, after.columns.columns? u = s.columns.columns? u) ∧
    s.foreignKeys <+: after.foreignKeys ∧
    (∀ key, key ∈ after.foreignKeys ↔
      key ∈ s.foreignKeys ∨ ∃ clause ∈ clauses, ∃ i fk, leadingIdentifier? clause = some i ∧
        (i.quoted = false ∧ i.lowerName ∈ keywords) ∧ foreignKeyIn? (trim clause) = some fk ∧
          key = keyOf table fk) ∧
    (earlier ++ found).filterMap (diagnosticOf? source) =
      earlier.filterMap (diagnosticOf? source) ++
        (clauses.filter fun clause => leadingIdentifier? clause = none).map
          (unreadDiagnostic source table) := by
  intro found after keywords
  have hfound : found = clauses.flatMap fun clause => clauseFacts table (trim clause) :=
    bodyFacts_intercalate table hclosed hbody
  have hcolumn : ∀ u column, .column u column ∈ found ↔ u = table ∧ ∃ clause ∈ clauses, ∃ i,
      leadingIdentifier? clause = some i ∧ (i.quoted ∨ i.lowerName ∉ keywords) ∧
        i.name = column := by
    intro u column
    rw [hfound, List.mem_flatMap]
    simp only [column_mem_clauseFacts, leadingIdentifier?_trim,
      Identifier.isConstraint_eq_false_iff]
    grind
  refine ⟨fun clause i => leadingIdentifier?_eq_some_iff, fun clause =>
    ⟨fun fk => declares_of_foreignKeyIn?, fun h fk => not_declares_of_foreignKeyIn? h⟩,
    fun column => ?_, fun u hu => ?_, ?_, fun key => ?_, ?_⟩
  · rw [Schema.mem_columnsOf_foldl_record, hcolumn, eq_self_iff_true, true_and]
  · have hother : ∀ column, .column u column ∉ found :=
      fun column h => hu ((hcolumn u column).1 h).1
    have htable : .table u ∉ found := by
      rw [hfound, List.mem_flatMap]
      rintro ⟨clause, -, h⟩
      exact table_not_mem_clauseFacts h
    refine ColumnSet.columns?_congr ?_ fun column => ?_
    · simp [after, Schema.containsTable_foldl_record, hother, htable]
    · simp [after, Schema.mem_columnsOf_foldl_record, hother]
  · rw [Schema.foreignKeys_foldl_record]
    exact List.prefix_append _ _
  · have hkey : .foreignKey key ∈ found ↔ ∃ clause ∈ clauses, ∃ i fk,
        leadingIdentifier? clause = some i ∧ (i.quoted = false ∧ i.lowerName ∈ keywords) ∧
          foreignKeyIn? (trim clause) = some fk ∧ key = keyOf table fk := by
      rw [hfound, List.mem_flatMap]
      simp only [foreignKey_mem_clauseFacts, leadingIdentifier?_trim,
        Identifier.isConstraint_iff]
      rfl
    rw [Schema.foreignKeys_foldl_record, List.mem_append, List.mem_filter,
      Schema.mem_foreignKeys_ofFacts, hkey]
    grind
  · rw [List.filterMap_append, hfound, diagnostics_clauses]

/-- A constraint that makes a column a foreign key. -/
def ordersKeyClause : List Char :=
  "\nCONSTRAINT k FOREIGN KEY (id) REFERENCES \"users\"(uid)".toList

/-- A comma in a literal and in brackets, a quoted word that would begin a constraint, a foreign key
and a clause that begins with no identifier. -/
def orderClauses : List (List Char) :=
  ["id text DEFAULT f('a,b)')".toList, " \"primary\" numeric(10, 2)".toList, ordersKeyClause,
    " 12 months ".toList]

/-- The quoted word becomes a column, the constraint a foreign key, and the clause without an
identifier is reported. -/
theorem record_orderClauses :
    (∀ clause ∈ orderClauses, ClosedPart .sql ',' clause) ∧
      trim ([','].intercalate orderClauses) ≠ [] ∧
      (let found := bodyFacts "orders" ([','].intercalate orderClauses)
      let after := found.foldl Schema.record {}
      "primary" ∈ after.columns.columnsOf "orders" ∧
      ⟨"orders", "id", "users", "uid"⟩ ∈ after.foreignKeys ∧
      found.filterMap (diagnosticOf? "1.sql") =
        [⟨"1.sql", .parseSkip, "orders: unrecognized clause `12 months`"⟩]) := by
  have hclosed : ∀ clause ∈ orderClauses, ClosedPart .sql ',' clause := by decide +kernel
  have hbody : trim ([','].intercalate orderClauses) ≠ [] := by decide +kernel
  obtain ⟨-, -, hcolumns, -, -, hkeys, hdiagnostics⟩ :=
    record_bodyFacts_closed "orders" "1.sql" {} [] orderClauses hclosed hbody
  have hkey : (foreignKeyIn? (trim ordersKeyClause)).map (keyOf "orders") =
      some ⟨"orders", "id", "users", "uid"⟩ := by decide +kernel
  obtain ⟨fk, hfk, hkey⟩ := Option.map_eq_some_iff.1 hkey
  refine ⟨hclosed, hbody, (hcolumns "primary").2 (.inr ?_), (hkeys _).2 (.inr ?_),
    hdiagnostics.trans (by decide +kernel)⟩
  · exact ⟨" \"primary\" numeric(10, 2)".toList, by decide, ⟨"primary", true⟩, by decide +kernel,
      .inl rfl, rfl⟩
  · exact ⟨ordersKeyClause, by decide, ⟨"CONSTRAINT", false⟩, fk, by decide +kernel,
      by decide +kernel, hfk, hkey.symm⟩

end SchemaDrift.Migration
