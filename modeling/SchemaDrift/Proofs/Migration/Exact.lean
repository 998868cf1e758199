import SchemaDrift.Proofs.Migration.History
import SchemaDrift.Proofs.Migration.Inline

/-!
# Extraction of a script

The four passes over the text of a script say together what its statements mean, each column and
each foreign key once and of the right table (`extraction_exact`).
-/

namespace SchemaDrift.Script

open Text Scan Migration

/-- What the passes say of a statement. -/
def Statement.facts (s : Statement) : List Fact :=
  s.definition ++ s.alteration ++ s.dropping ++ s.inline

/-- The four passes say of a script what they say of its statements. -/
theorem sqlFacts_render (ss : List Statement) :
    sqlFacts (render ss) = ss.flatMap Statement.definition ++ ss.flatMap Statement.alteration ++
      ss.flatMap Statement.dropping ++ ss.flatMap Statement.inline := by
  rw [sqlFacts, createFacts_render, alterFacts_render, dropFacts_render, inlineFacts_render]

/-- A script has no comments, so it is read as it is written. -/
theorem facts_render (file : String) (ss : List Statement) :
    Migration.facts ⟨file, String.ofList (render ss)⟩ = sqlFacts (render ss) := by
  rw [Migration.facts, String.toList_ofList, stripComments_eq (isInert_render ss)]

/-- What a script says is what its statements say. -/
theorem mem_facts_render {ss : List Statement} {f : Fact} :
    f ∈ sqlFacts (render ss) ↔ ∃ s ∈ ss, f ∈ s.facts := by
  simp only [sqlFacts_render, Statement.facts, List.mem_append, List.mem_flatMap]
  grind

/-! ## Clauses and actions -/

/-- The column that a clause of a table definition declares is the only one it says. -/
theorem Item.column_mem_facts {i : Item} {t : Name} {table column : String} :
    (.column table column ∈ i.facts t ∨ .column table column ∈ i.inline t) ↔
      ∃ d, i.column? = some d ∧ (t.text, d.name.text) = (table, column) := by
  cases i with
  | column d => simp [Item.facts, Item.inline, Item.column?, eq_comm]
  | primaryKey c => simp [Item.facts, Item.inline, Item.column?]
  | foreignKey c r => simp [Item.facts, Item.inline, Item.column?]

/-- The foreign key that a clause of a table definition declares is the only one it says. -/
theorem Item.foreignKey_mem_facts {i : Item} {t : Name} {k : ForeignKey} :
    (.foreignKey k ∈ i.facts t ∨ .foreignKey k ∈ i.inline t) ↔ i.edge? t = some k := by
  cases i with
  | column d => simp [Item.facts, Item.inline, Item.edge?]
  | primaryKey c => simp [Item.facts, Item.inline, Item.edge?]
  | foreignKey c r => simp [Item.facts, Item.inline, Item.edge?, eq_comm]

/-- The column that an action adds is the only one it says. -/
theorem Action.column_mem_facts {a : Action} {t : Name} {table column : String} :
    .column table column ∈ a.facts t ↔
      ∃ d, a.column? = some d ∧ (t.text, d.name.text) = (table, column) := by
  cases a with
  | addColumn d => simp [Action.facts, Action.column?, eq_comm]
  | dropColumn c => simp [Action.facts, Action.column?]

/-- The foreign key of the column that an action adds is the only one it says. -/
theorem Action.foreignKey_mem_facts {a : Action} {t : Name} {k : ForeignKey} :
    .foreignKey k ∈ a.facts t ↔ ∃ d, a.column? = some d ∧ d.edge? t = some k := by
  cases a with
  | addColumn d => simp [Action.facts, Action.column?]
  | dropColumn c => simp [Action.facts, Action.column?]

/-! ## Statements -/

namespace Statement

/-- What a table definition says: its table, and what its clauses say. -/
theorem mem_facts_create {t : Name} {items : List Item} {f : Fact} :
    f ∈ (create t items).facts ↔
      f = .table t.text ∨ ∃ i ∈ items, f ∈ i.facts t ∨ f ∈ i.inline t := by
  simp only [facts, definition, alteration, dropping, inline, List.mem_append, List.mem_cons,
    List.mem_flatMap, List.append_nil]
  grind

/-- What a table alteration says is what its actions say. -/
theorem mem_facts_alter {t : Name} {a : Action} {as : List Action} {f : Fact} :
    f ∈ (alter t a as).facts ↔ ∃ b ∈ a :: as, f ∈ b.facts t := by
  simp only [facts, definition, alteration, dropping, inline, List.nil_append, List.append_nil,
    List.mem_flatMap]

/-- A dropped table says only that it was ignored. -/
theorem mem_facts_drop {t : Name} {f : Fact} :
    f ∈ (drop t).facts ↔ f = .notice (.ignoredDrop t.text) :=
  List.mem_singleton

/-- A statement says the columns that it declares. -/
theorem column_mem_facts {s : Statement} {table column : String} :
    .column table column ∈ s.facts ↔ (table, column) ∈ s.columns := by
  cases s with
  | create t items =>
    simp only [mem_facts_create, reduceCtorEq, false_or, Item.column_mem_facts, columns,
      List.mem_map, List.mem_filterMap]
    grind
  | alter t a as =>
    simp only [mem_facts_alter, Action.column_mem_facts, columns, List.mem_map,
      List.mem_filterMap]
    grind
  | drop t => simp [mem_facts_drop, columns]

/-- A statement names the tables that it declares or adds columns to. -/
theorem table_mem_facts {s : Statement} {table : String} :
    (.table table ∈ s.facts ∨ ∃ column, .column table column ∈ s.facts) ↔ table ∈ s.tables := by
  simp only [column_mem_facts]
  cases s with
  | create t items =>
    have hitem : ∀ i : Item, .table table ∉ i.facts t ∧ .table table ∉ i.inline t := by
      intro i
      cases i <;> simp [Item.facts, Item.inline]
    simp only [mem_facts_create, hitem, columns, tables, List.mem_map, List.mem_singleton,
      Fact.table.injEq, or_self, and_false, exists_false, or_false, Prod.mk.injEq]
    grind
  | alter t a as =>
    have haction : ∀ b : Action, .table table ∉ b.facts t := by
      intro b
      cases b <;> simp [Action.facts]
    simp only [mem_facts_alter, haction, columns, tables, List.mem_map, Prod.mk.injEq, and_false,
      exists_false, false_or]
    grind
  | drop t => simp [mem_facts_drop, columns, tables]

/-- A statement says the foreign keys that it declares. -/
theorem foreignKey_mem_facts {s : Statement} {k : ForeignKey} :
    .foreignKey k ∈ s.facts ↔ k ∈ s.edges := by
  cases s with
  | create t items =>
    simp only [mem_facts_create, reduceCtorEq, false_or, Item.foreignKey_mem_facts, edges,
      List.mem_filterMap]
  | alter t a as =>
    simp only [mem_facts_alter, Action.foreignKey_mem_facts, edges, List.mem_filterMap]
    grind
  | drop t => simp [mem_facts_drop, edges]

/-- The diagnostic of a fact that is a notice. -/
def diagnosticOf? (file : String) (f : Fact) : Option Diagnostic :=
  f.notice?.bind (·.diagnostic? file)

/-- Nothing is skipped in the definition of a table. -/
theorem diagnostics_definition (file : String) (s : Statement) :
    s.definition.filterMap (diagnosticOf? file) = [] := by
  cases s with
  | create t items =>
    rw [definition, List.filterMap_cons_none rfl, List.filterMap_eq_nil_iff]
    intro f hf
    obtain ⟨i, -, hf⟩ := List.mem_flatMap.1 hf
    cases i <;> simp [Item.facts] at hf <;> subst hf <;> rfl
  | alter t a as => rfl
  | drop t => rfl

/-- Of the actions of an alteration, those that are ignored are reported. -/
theorem diagnostics_alteration (file : String) (s : Statement) :
    s.alteration.filterMap (diagnosticOf? file) = s.ignoredActions file := by
  cases s with
  | create t items => rfl
  | alter t a as =>
    have haction (b : Action) : (b.facts t).filterMap (diagnosticOf? file) =
        (b.ignored? file t).toList := by
      cases b with
      | addColumn d =>
        rw [Action.facts]
        cases d.edge? t <;> rfl
      | dropColumn c => rfl
    rw [alteration, List.filterMap_flatMap, ignoredActions, List.filterMap_eq_flatMap_toList]
    simp only [haction]
  | drop t => rfl

/-- A dropped table is reported. -/
theorem diagnostics_dropping (file : String) (s : Statement) :
    s.dropping.filterMap (diagnosticOf? file) = s.ignoredDrop file := by
  cases s <;> rfl

/-- Nothing is skipped in the references of a statement. -/
theorem diagnostics_inline (file : String) (s : Statement) :
    s.inline.filterMap (diagnosticOf? file) = [] := by
  cases s with
  | create t items =>
    rw [inline, List.filterMap_eq_nil_iff]
    intro f hf
    obtain ⟨i, -, hf⟩ := List.mem_flatMap.1 hf
    cases i with
    | column d =>
      obtain ⟨k, -, rfl⟩ := List.mem_map.1 hf
      rfl
    | primaryKey c => cases hf
    | foreignKey c r => cases hf
  | alter t a as => rfl
  | drop t => rfl

end Statement

/-! ## Scripts -/

/-- The diagnostics of a script: the ignored actions and the ignored drops, in this order. -/
theorem diagnostics_render (file : String) (ss : List Statement) :
    Migration.diagnostics ⟨file, String.ofList (render ss)⟩ =
      ss.flatMap (Statement.ignoredActions file) ++ ss.flatMap (Statement.ignoredDrop file) := by
  have hsilent : ss.flatMap (fun _ => ([] : List Diagnostic)) = [] := by simp
  change (Migration.facts ⟨file, String.ofList (render ss)⟩).filterMap
    (Statement.diagnosticOf? file) = _
  rw [facts_render, sqlFacts_render]
  simp only [List.filterMap_append, List.filterMap_flatMap, Statement.diagnostics_definition,
    Statement.diagnostics_alteration, Statement.diagnostics_dropping,
    Statement.diagnostics_inline, hsilent, List.nil_append, List.append_nil]

/-- What is extracted from a file that holds a script. -/
def extraction (file : String) (script : List Statement) : Extraction Schema :=
  extract [⟨file, String.ofList (render script)⟩]

/-- The schema of a script is built from what it says. -/
theorem snapshot_extraction (file : String) (script : List Statement) :
    (extraction file script).snapshot = Schema.ofFacts (sqlFacts (render script)) := by
  simp [extraction, extract, facts_render]

/-- The diagnostics of a script are those of its only migration. -/
theorem diagnostics_extraction (file : String) (script : List Statement) :
    (extraction file script).diagnostics =
      Migration.diagnostics ⟨file, String.ofList (render script)⟩ := by
  simp [extraction, extract]

/-- A script is extracted exactly. The tables are those it creates or gives a column, each with the
columns given to it; the foreign keys are those it declares, none of them twice; and what it drops
is kept and reported, columns before tables. -/
theorem extraction_exact (file : String) (script : List Statement) :
    (∀ table, (extraction file script).snapshot.columns.containsTable table ↔
      table ∈ script.flatMap Statement.tables) ∧
    (∀ table column, column ∈ (extraction file script).snapshot.columns.columnsOf table ↔
      (table, column) ∈ script.flatMap Statement.columns) ∧
    (extraction file script).snapshot.foreignKeys.Nodup ∧
    (∀ key, key ∈ (extraction file script).snapshot.foreignKeys ↔
      key ∈ script.flatMap Statement.edges) ∧
    (extraction file script).diagnostics =
      script.flatMap (Statement.ignoredActions file) ++
        script.flatMap (Statement.ignoredDrop file) := by
  rw [snapshot_extraction, diagnostics_extraction]
  refine ⟨fun table => ?_, fun table column => ?_, Schema.nodup_foreignKeys_ofFacts _,
    fun key => ?_, diagnostics_render file script⟩
  · rw [Schema.containsTable_ofFacts]
    simp only [mem_facts_render, List.mem_flatMap, ← Statement.table_mem_facts]
    grind
  · rw [Schema.mem_columnsOf_ofFacts, mem_facts_render]
    simp only [Statement.column_mem_facts, List.mem_flatMap]
  · rw [Schema.mem_foreignKeys_ofFacts, mem_facts_render]
    simp only [Statement.foreignKey_mem_facts, List.mem_flatMap]

end SchemaDrift.Script
