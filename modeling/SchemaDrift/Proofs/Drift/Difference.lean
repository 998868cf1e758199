import SchemaDrift.Proofs.Drift.Coverage

/-!
# The report is the difference of the snapshots

`DriftReport.driftOf` reads the entry of a table; a table without an entry has no findings. The
report on three snapshots has an entry for each table that one of them names
(`mem_keys_analyze`), and every finding on columns is the difference of two column sets at every
table, named or not (`missingInTypes_analyze`, `missingInSql_analyze`, `phantomBackend_analyze`). So
the columns of the types can be had back from those of the schema, and a report passes exactly if
the snapshots agree (`analyze_exact`).
-/

namespace SchemaDrift

/-- What the comparisons found for a table: nothing, if the report has no entry for it. -/
def DriftReport.driftOf (r : DriftReport) (table : String) : TableDrift :=
  (r.tables.get? table).getD {}

/-- The drift of a table that a report has is the one in the report. -/
theorem DriftReport.driftOf_of_get? {r : DriftReport} {t : String} {d : TableDrift}
    (h : r.tables.get? t = some d) : r.driftOf t = d := by
  rw [driftOf, h, Option.getD_some]

/-- A table that a report does not have drifts by nothing. -/
theorem DriftReport.driftOf_of_not_mem {r : DriftReport} {t : String} (h : t ∉ r.tables.keys) :
    r.driftOf t = {} := by
  rw [SortedMap.mem_keys, Option.not_isSome_iff_eq_none] at h
  rw [driftOf, h, Option.getD_none]

/-- A property of all entries is one of all tables, if it holds of a table without findings. -/
theorem DriftReport.forall_values_iff (r : DriftReport) {p : TableDrift → Prop} (h : p {}) :
    (∀ d ∈ r.tables.values, p d) ↔ ∀ t, p (r.driftOf t) := by
  constructor
  · intro hall t
    cases hd : r.tables.get? t with
    | none => rwa [driftOf, hd, Option.getD_none]
    | some d => exact driftOf_of_get? hd ▸ hall d (SortedMap.mem_values.2 ⟨t, hd⟩)
  · intro hall d hd
    obtain ⟨t, ht⟩ := SortedMap.mem_values.1 hd
    exact driftOf_of_get? ht ▸ hall t

/-! ## Tables -/

section
variable (schema : Schema) (types : RowTypes) (usage : Usage) (t : String)

/-- The tables of a project are those that the schema, the types or the usage name. -/
theorem mem_namedTables :
    t ∈ namedTables schema types usage ↔ schema.columns.containsTable t ∨
      types.columns.containsTable t ∨ usage.columns.containsTable t := by
  simp only [namedTables, SortedSet.mem_union, ColumnSet.mem_tableNames, or_assoc]

/-- The tables of a report are those that any of the snapshots names. -/
theorem mem_keys_analyze :
    t ∈ (analyze schema types usage).tables.keys ↔ schema.columns.containsTable t ∨
      types.columns.containsTable t ∨ usage.columns.containsTable t := by
  rw [← mem_namedTables]
  show t ∈ (SortedMap.ofSet _ _).keys ↔ _
  rw [SortedMap.keys_ofSet]

/-- For a table of the report, the drift is computed from the three snapshots. -/
theorem driftOf_analyze_of_mem (h : t ∈ (analyze schema types usage).tables.keys) :
    (analyze schema types usage).driftOf t = tableDrift schema types usage t := by
  rw [mem_keys_analyze, ← mem_namedTables] at h
  refine DriftReport.driftOf_of_get? ?_
  show (SortedMap.ofSet _ _).get? t = _
  rw [SortedMap.get?_ofSet, if_pos h]

/-! ## Columns -/

/-- A table that no snapshot names has no columns anywhere, so a comparison of columns finds nothing
there, as if the table were reported. -/
theorem driftOf_analyze_columns :
    (((analyze schema types usage).driftOf t).missingInTypes =
      (schema.columns.columnsOf t).diff (types.columns.columnsOf t)) ∧
    (((analyze schema types usage).driftOf t).missingInSql =
      (types.columns.columnsOf t).diff (schema.columns.columnsOf t)) ∧
    ((analyze schema types usage).driftOf t).phantomBackend =
      (usage.columns.columnsOf t).diff (schema.columns.columnsOf t) := by
  by_cases h : t ∈ (analyze schema types usage).tables.keys
  · rw [driftOf_analyze_of_mem schema types usage t h]
    exact ⟨rfl, rfl, rfl⟩
  · rw [DriftReport.driftOf_of_not_mem h]
    simp only [mem_keys_analyze, not_or] at h
    obtain ⟨hs, hty, hu⟩ := h
    rw [ColumnSet.columnsOf_of_not_containsTable hs, ColumnSet.columnsOf_of_not_containsTable hty,
      ColumnSet.columnsOf_of_not_containsTable hu]
    exact ⟨rfl, rfl, rfl⟩

/-- Missing in the types are the columns of the schema that the types lack. -/
theorem missingInTypes_analyze :
    ((analyze schema types usage).driftOf t).missingInTypes =
      (schema.columns.columnsOf t).diff (types.columns.columnsOf t) :=
  (driftOf_analyze_columns schema types usage t).1

/-- Missing in the schema are the columns of the types that it lacks. -/
theorem missingInSql_analyze :
    ((analyze schema types usage).driftOf t).missingInSql =
      (types.columns.columnsOf t).diff (schema.columns.columnsOf t) :=
  (driftOf_analyze_columns schema types usage t).2.1

/-- Phantoms are the columns used that the schema lacks. -/
theorem phantomBackend_analyze :
    ((analyze schema types usage).driftOf t).phantomBackend =
      (usage.columns.columnsOf t).diff (schema.columns.columnsOf t) :=
  (driftOf_analyze_columns schema types usage t).2.2

/-- The columns that the types lack and those that only they have turn the columns of the schema
into those of the types. -/
theorem union_diff_missing :
    ((schema.columns.columnsOf t).diff
      ((analyze schema types usage).driftOf t).missingInTypes).union
        ((analyze schema types usage).driftOf t).missingInSql = types.columns.columnsOf t := by
  rw [missingInTypes_analyze, missingInSql_analyze]
  refine SortedSet.ext_mem fun c => ?_
  simp only [SortedSet.mem_union, SortedSet.mem_diff]
  tauto

/-! ## Relations -/

/-- A foreign key starts at a column if one of the list does. -/
theorem hasForeignKey_iff {c : String} :
    schema.hasForeignKey t c ↔
      ∃ fk ∈ schema.foreignKeys, fk.sourceTable = t ∧ fk.sourceColumn = c := by
  simp [Schema.hasForeignKey]

/-- Undeclared relations of a table are the candidates on it whose column is the source of no
foreign key. -/
theorem mem_undeclaredRelations_analyze (h : t ∈ (analyze schema types usage).tables.keys)
    {m c : String} :
    (⟨m, c⟩ : ModuleColumn) ∈ ((analyze schema types usage).driftOf t).undeclaredRelations ↔
      (∃ d ∈ usage.relationCandidates, d.module = m ∧ d.column = c ∧ t ∈ d.tables) ∧
      ¬ ∃ fk ∈ schema.foreignKeys, fk.sourceTable = t ∧ fk.sourceColumn = c := by
  rw [driftOf_analyze_of_mem schema types usage t h, ← hasForeignKey_iff]
  show _ ∈ undeclaredRelations schema usage t ↔ _
  rw [mem_undeclaredRelations]
  constructor
  · rintro ⟨d, hd, ht, hkey, hmc⟩
    obtain ⟨rfl, rfl⟩ := ModuleColumn.mk.injEq .. ▸ hmc
    exact ⟨⟨d, hd, rfl, rfl, ht⟩, hkey⟩
  · rintro ⟨⟨d, hd, rfl, rfl, ht⟩, hkey⟩
    exact ⟨d, hd, ht, hkey, rfl⟩

end

/-! ## Verdict -/

/-- A report passes if no table has a phantom column or a column that only one of schema and types
has. -/
theorem DriftReport.passed_iff_driftOf (r : DriftReport) :
    r.passed ↔ ∀ t, (∀ c, c ∉ (r.driftOf t).phantomBackend) ∧
      (∀ c, c ∉ (r.driftOf t).missingInTypes) ∧ ∀ c, c ∉ (r.driftOf t).missingInSql := by
  have hempty : ∀ d : TableDrift, (!d.isDirty && d.isSynchronized) = true ↔
      (∀ c, c ∉ d.phantomBackend) ∧ (∀ c, c ∉ d.missingInTypes) ∧ ∀ c, c ∉ d.missingInSql := by
    intro d
    simp only [TableDrift.isDirty, TableDrift.isSynchronized, Bool.not_not, Bool.and_eq_true,
      SortedSet.isEmpty_iff]
  rw [passed, List.all_eq_true]
  simp only [hempty]
  exact r.forall_values_iff ⟨fun _ => SortedSet.not_mem_empty, fun _ => SortedSet.not_mem_empty,
    fun _ => SortedSet.not_mem_empty⟩

/-- A report passes if schema and types have the same columns and every column in use is one of the
schema. -/
theorem passed_analyze_iff (schema : Schema) (types : RowTypes) (usage : Usage) :
    (analyze schema types usage).passed ↔
      (∀ t c, c ∈ schema.columns.columnsOf t ↔ c ∈ types.columns.columnsOf t) ∧
      ∀ t c, c ∈ usage.columns.columnsOf t → c ∈ schema.columns.columnsOf t := by
  rw [DriftReport.passed_iff_driftOf]
  simp only [missingInTypes_analyze, missingInSql_analyze, phantomBackend_analyze,
    SortedSet.mem_diff, not_and, not_not]
  constructor
  · intro h
    exact ⟨fun t c => ⟨(h t).2.1 c, (h t).2.2 c⟩, fun t c => (h t).1 c⟩
  · rintro ⟨hsame, hused⟩ t
    exact ⟨hused t, fun c => (hsame t c).1, fun c => (hsame t c).2⟩

/-- **The report is the exact difference of the snapshots.** Its tables are those that any snapshot
names. At every table, a column is missing in the types exactly if only the schema has it, missing
in the schema exactly if only the types have it, and a phantom exactly if it is in use and the
schema lacks it. At every table of the report, a join key of a module is undeclared exactly if a
relation candidate has it on the table and no foreign key starts there. So nothing is missing on both
sides, the columns of the types can be had back from those of the schema, and the report passes
exactly if schema and types have the same columns and every column in use is one of the schema. -/
theorem analyze_exact (schema : Schema) (types : RowTypes) (usage : Usage) :
    let r := analyze schema types usage
    (∀ t, t ∈ r.tables.keys ↔ schema.columns.containsTable t ∨ types.columns.containsTable t ∨
      usage.columns.containsTable t) ∧
    (∀ t c,
      (c ∈ (r.driftOf t).missingInTypes ↔
        c ∈ schema.columns.columnsOf t ∧ c ∉ types.columns.columnsOf t) ∧
      (c ∈ (r.driftOf t).missingInSql ↔
        c ∈ types.columns.columnsOf t ∧ c ∉ schema.columns.columnsOf t) ∧
      (c ∈ (r.driftOf t).phantomBackend ↔
        c ∈ usage.columns.columnsOf t ∧ c ∉ schema.columns.columnsOf t)) ∧
    (∀ t ∈ r.tables.keys, ∀ m c,
      ⟨m, c⟩ ∈ (r.driftOf t).undeclaredRelations ↔
        (∃ d ∈ usage.relationCandidates, d.module = m ∧ d.column = c ∧ t ∈ d.tables) ∧
        ¬ ∃ fk ∈ schema.foreignKeys, fk.sourceTable = t ∧ fk.sourceColumn = c) ∧
    (∀ t, (∀ c ∈ (r.driftOf t).missingInTypes, c ∉ (r.driftOf t).missingInSql) ∧
      ((schema.columns.columnsOf t).diff (r.driftOf t).missingInTypes).union
        (r.driftOf t).missingInSql = types.columns.columnsOf t) ∧
    (r.passed ↔ (∀ t c, c ∈ schema.columns.columnsOf t ↔ c ∈ types.columns.columnsOf t) ∧
      ∀ t c, c ∈ usage.columns.columnsOf t → c ∈ schema.columns.columnsOf t) := by
  intro r
  refine ⟨mem_keys_analyze schema types usage, fun t c => ?_,
    fun t ht m c => mem_undeclaredRelations_analyze schema types usage t ht,
    fun t => ⟨fun c hc hc' => ?_, union_diff_missing schema types usage t⟩,
    passed_analyze_iff schema types usage⟩
  · rw [missingInTypes_analyze, missingInSql_analyze, phantomBackend_analyze]
    exact ⟨SortedSet.mem_diff, SortedSet.mem_diff, SortedSet.mem_diff⟩
  · rw [missingInTypes_analyze] at hc
    rw [missingInSql_analyze] at hc'
    exact (SortedSet.mem_diff.1 hc).2 (SortedSet.mem_diff.1 hc').1

/-- A join key that is used on a table known from the usage alone is reported there, and one that is
a foreign key of its table is not. -/
theorem undeclared_on_unknown_table :
    let schema : Schema := ⟨.ofList [("posts", ["user_id"])], [⟨"posts", "user_id", "users", "id"⟩]⟩
    let usage : Usage :=
      { columns := .ofList [("notes", ["user_id"]), ("posts", ["user_id"])]
        relationCandidates := [⟨"feed", "user_id", .ofList ["notes", "posts"], none⟩] }
    let r := analyze schema {} usage
    "notes" ∈ r.tables.keys ∧ "posts" ∈ r.tables.keys ∧
      ⟨"feed", "user_id"⟩ ∈ (r.driftOf "notes").undeclaredRelations ∧
      ⟨"feed", "user_id"⟩ ∉ (r.driftOf "posts").undeclaredRelations := by
  intro schema usage r
  have hnotes : "notes" ∈ r.tables.keys := by decide
  have hposts : "posts" ∈ r.tables.keys := by decide
  have hrelations := (analyze_exact schema {} usage).2.2.1
  refine ⟨hnotes, hposts, (hrelations _ hnotes _ _).2 ⟨?_, by decide⟩, ?_⟩
  · exact ⟨_, List.mem_singleton_self _, rfl, rfl, by decide⟩
  · intro h
    exact absurd ((hrelations _ hposts _ _).1 h).2 (by decide)

end SchemaDrift
