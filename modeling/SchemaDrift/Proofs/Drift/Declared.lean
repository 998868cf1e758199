import SchemaDrift.Proofs.Collection.Totals
import SchemaDrift.Proofs.Drift.Difference

/-!
# Declaring a column of the schema

Two reports on types that differ in one column, which the schema has, differ in one finding. The
table of the column is named by the schema, so both reports have the same tables
(`namedTables_declare`); only the entry of this table changes, and only in the columns that the
types lack (`tableDrift_declare`). `analyze_declare` states this for the whole report, and the
counts follow from what a change at one key does to a sum (`declared_column_removes_drift`).
-/

namespace SchemaDrift

/-- The types with a column of a table declared. -/
def RowTypes.declare (types : RowTypes) (t c : String) : RowTypes :=
  ⟨types.columns.insertColumn t c⟩

/-- The findings without a column among those that the types lack. -/
def TableDrift.withDeclared (d : TableDrift) (c : String) : TableDrift :=
  { d with missingInTypes := d.missingInTypes.filter (· != c) }

/-! ## Findings of a table -/

/-- Inserting a column leaves the columns of other tables. -/
theorem ColumnSet.columnsOf_insertColumn_of_ne (s : ColumnSet) {t u : String} (h : u ≠ t)
    (c : String) : (s.insertColumn t c).columnsOf u = s.columnsOf u := by
  refine SortedSet.ext_mem fun x => ?_
  simp [h]

/-- Inserting a column that is there changes nothing. -/
theorem ColumnSet.insertColumn_of_mem {s : ColumnSet} {t c : String} (h : c ∈ s.columnsOf t) :
    s.insertColumn t c = s := by
  refine ext_mem (fun u => ?_) fun u x => ?_
  · rw [containsTable_insertColumn]
    exact or_iff_right_of_imp fun hu => hu ▸ containsTable_of_mem h
  · rw [mem_columnsOf_insertColumn]
    refine or_iff_right_of_imp ?_
    rintro ⟨rfl, rfl⟩
    exact h

namespace TableDrift

variable (d : TableDrift) (c : String)

/-- Declaring a column settles one finding if the types lacked it. -/
theorem issueCount_withDeclared_sync :
    (d.withDeclared c).issueCount .sync + (if c ∈ d.missingInTypes then 1 else 0) =
      d.issueCount .sync := by
  have hsize := d.missingInTypes.size_filter_ne c
  simp only [issueCount, withDeclared]
  omega

/-- A declaration changes no count of issues but that between schema and types. -/
theorem issueCount_withDeclared {k : Comparison} (hk : k ≠ .sync) :
    (d.withDeclared c).issueCount k = d.issueCount k := by
  cases k with
  | sync => exact absurd rfl hk
  | usage | relations => rfl

/-- A declaration changes no verdict on a table but that between schema and types. -/
theorem isClean_withDeclared {k : Comparison} (hk : k ≠ .sync) :
    (d.withDeclared c).isClean k = d.isClean k := by
  cases k with
  | sync => exact absurd rfl hk
  | usage | relations => rfl

end TableDrift

/-- Reports whose tables are clean alike, in order, are summed up alike. -/
theorem DriftReport.summary_congr {a b : DriftReport} {k : Comparison}
    (h : a.tables.values.map (·.isClean k) = b.tables.values.map (·.isClean k)) :
    a.summary k = b.summary k := by
  have hsize : a.tables.size = b.tables.size := by
    simpa [size_eq_length_values] using congrArg List.length h
  have hclean : (a.tables.values.filter (·.isClean k)).length =
      (b.tables.values.filter (·.isClean k)).length := by
    have hcount := congrArg (List.countP id) h
    rw [List.countP_map, List.countP_map] at hcount
    rw [← List.countP_eq_length_filter, ← List.countP_eq_length_filter]
    exact hcount
  simp only [summary, hsize, hclean]

section
variable (schema : Schema) (types : RowTypes) (usage : Usage) {t c : String}
  (h : c ∈ schema.columns.columnsOf t)
include h

/-- The schema names the table already, so the types name no table that was not reported. -/
theorem namedTables_declare :
    namedTables schema (types.declare t c) usage = namedTables schema types usage := by
  refine SortedSet.ext_mem fun u => ?_
  have ht := ColumnSet.containsTable_of_mem h
  simp only [mem_namedTables, RowTypes.declare, ColumnSet.containsTable_insertColumn]
  constructor
  · rintro (hs | (rfl | hty) | hu)
    · exact .inl hs
    · exact .inl ht
    · exact .inr (.inl hty)
    · exact .inr (.inr hu)
  · rintro (hs | hty | hu)
    · exact .inl hs
    · exact .inr (.inl (.inr hty))
    · exact .inr (.inr hu)

/-- A declared column of the schema is no longer missing, and nothing else is found or lost. -/
theorem tableDrift_declare (u : String) :
    tableDrift schema (types.declare t c) usage u =
      if u = t then (tableDrift schema types usage t).withDeclared c
      else tableDrift schema types usage u := by
  split
  · next hu =>
    subst hu
    have hmissing : (schema.columns.columnsOf u).diff ((types.declare u c).columns.columnsOf u) =
        ((schema.columns.columnsOf u).diff (types.columns.columnsOf u)).filter (· != c) := by
      refine SortedSet.ext_mem fun x => ?_
      simp only [RowTypes.declare, SortedSet.mem_diff, SortedSet.mem_filter,
        ColumnSet.mem_columnsOf_insertColumn, bne_iff_ne, true_and]
      tauto
    have hsurplus : ((types.declare u c).columns.columnsOf u).diff (schema.columns.columnsOf u) =
        (types.columns.columnsOf u).diff (schema.columns.columnsOf u) := by
      refine SortedSet.ext_mem fun x => ?_
      simp only [RowTypes.declare, SortedSet.mem_diff, ColumnSet.mem_columnsOf_insertColumn,
        true_and]
      constructor
      · rintro ⟨rfl | hx, hs⟩
        · exact absurd h hs
        · exact ⟨hx, hs⟩
      · exact fun hx => ⟨.inr hx.1, hx.2⟩
    rw [tableDrift, tableDrift, hmissing, hsurplus]
    rfl
  · next hu =>
    rw [tableDrift, tableDrift, RowTypes.declare, ColumnSet.columnsOf_insertColumn_of_ne _ hu]

/-! ## Reports -/

/-- The table of a column of the schema has an entry. -/
theorem get?_analyze_of_mem :
    (analyze schema types usage).tables.get? t = some (tableDrift schema types usage t) := by
  show (SortedMap.ofSet _ _).get? t = _
  rw [SortedMap.get?_ofSet, if_pos]
  exact (mem_namedTables ..).2 (.inl (ColumnSet.containsTable_of_mem h))

/-- The report on the types with a column declared is the report without it, but for one entry and
what identifies the types. -/
theorem analyze_declare :
    analyze schema (types.declare t c) usage =
      { analyze schema types usage with
        tables := (analyze schema types usage).tables.update t fun d => (d.getD {}).withDeclared c
        typesFingerprint := (types.declare t c).fingerprint } := by
  have htables : (analyze schema (types.declare t c) usage).tables =
      (analyze schema types usage).tables.update t fun d => (d.getD {}).withDeclared c := by
    refine SortedMap.ext_get? fun u => ?_
    rw [SortedMap.get?_update, get?_analyze_of_mem schema types usage h]
    show (SortedMap.ofSet _ _).get? u = if _ then _ else (SortedMap.ofSet _ _).get? u
    rw [SortedMap.get?_ofSet, SortedMap.get?_ofSet, namedTables_declare schema types usage h,
      tableDrift_declare schema types usage h]
    by_cases hu : u = t
    · subst hu
      rw [if_pos rfl, if_pos rfl, if_pos]
      · rfl
      · exact (mem_namedTables ..).2 (.inl (ColumnSet.containsTable_of_mem h))
    · rw [if_neg hu, if_neg hu]
  rw [← htables]
  rfl

/-- Declaring a column takes away one issue between schema and types if the column was missing
there, and none otherwise. -/
theorem issueCount_sync_declare :
    (analyze schema (types.declare t c) usage).issueCount .sync +
      (if c ∈ (tableDrift schema types usage t).missingInTypes then 1 else 0) =
        (analyze schema types usage).issueCount .sync := by
  have hsum := (analyze schema types usage).tables.sum_values_update t
    (fun d => (d.getD {}).withDeclared c) (·.issueCount .sync)
  have hentry := (tableDrift schema types usage t).issueCount_withDeclared_sync c
  rw [get?_analyze_of_mem schema types usage h, Option.map_some, Option.getD_some,
    Option.getD_some] at hsum
  rw [analyze_declare schema types usage h]
  show (((analyze schema types usage).tables.update t _).values.map _).foldr (· + ·) 0 + _ =
    ((analyze schema types usage).tables.values.map _).foldr (· + ·) 0
  omega

/-- The other comparisons do not look at the columns that the types lack. -/
theorem counts_declare {k : Comparison} (hk : k ≠ .sync) :
    (analyze schema (types.declare t c) usage).issueCount k =
      (analyze schema types usage).issueCount k ∧
    (analyze schema (types.declare t c) usage).summary k =
      (analyze schema types usage).summary k := by
  have hentry := get?_analyze_of_mem schema types usage h
  rw [analyze_declare schema types usage h]
  constructor
  · refine congrArg (List.foldr (· + ·) 0) ?_
    exact SortedMap.map_values_update hentry (TableDrift.issueCount_withDeclared _ c hk)
  · refine DriftReport.summary_congr ?_
    exact SortedMap.map_values_update hentry (TableDrift.isClean_withDeclared _ c hk)

end

/-- **Declaring a column of the schema removes exactly its drift.** For all snapshots and every
column that the schema has at a table, the report on the types with this column declared differs
from the report before in what identifies the types, and in that the entry of the table no longer
lists the column as missing in the types. All other findings, tables, foreign keys and counts of
candidates are the same. So the comparison of schema and types finds one issue less if the column
was missing and as many as before if not, and the other comparisons count the same and have the same
summaries. Types that declared the column before are the same types, with the same report. -/
theorem declared_column_removes_drift (schema : Schema) (types : RowTypes) (usage : Usage)
    {t c : String} (h : c ∈ schema.columns.columnsOf t) :
    let declared : RowTypes := ⟨types.columns.insertColumn t c⟩
    let before := analyze schema types usage
    let after := analyze schema declared usage
    (∃ d, before.tables.get? t = some d ∧ after.tables.get? t =
      some { d with missingInTypes := d.missingInTypes.filter (· != c) }) ∧
    (∀ u, u ≠ t → after.tables.get? u = before.tables.get? u) ∧
    after.foreignKeys = before.foreignKeys ∧
    after.relationCandidates = before.relationCandidates ∧
    after.schemaFingerprint = before.schemaFingerprint ∧
    (c ∈ (before.driftOf t).missingInTypes →
      after.issueCount .sync + 1 = before.issueCount .sync) ∧
    (c ∉ (before.driftOf t).missingInTypes →
      after.issueCount .sync = before.issueCount .sync) ∧
    (∀ k, k ≠ .sync →
      after.issueCount k = before.issueCount k ∧ after.summary k = before.summary k) ∧
    (c ∈ types.columns.columnsOf t → after = before) := by
  intro declared before after
  have hentry : before.tables.get? t = some (tableDrift schema types usage t) :=
    get?_analyze_of_mem schema types usage h
  have hafter : after.tables =
      before.tables.update t fun d => (d.getD {}).withDeclared c :=
    congrArg DriftReport.tables (analyze_declare schema types usage h)
  have hsync := issueCount_sync_declare schema types usage h
  rw [← DriftReport.driftOf_of_get? hentry] at hsync
  refine ⟨⟨_, hentry, ?_⟩, fun u hu => ?_, rfl, rfl, rfl, fun hmissing => ?_, fun hmissing => ?_,
    fun k hk => counts_declare schema types usage h hk, fun hc => ?_⟩
  · rw [hafter, SortedMap.get?_update, if_pos rfl, hentry]
    rfl
  · rw [hafter, SortedMap.get?_update, if_neg hu]
  · rwa [if_pos hmissing] at hsync
  · rwa [if_neg hmissing] at hsync
  · have hsame : declared = types := congrArg RowTypes.mk (ColumnSet.insertColumn_of_mem hc)
    show analyze schema declared usage = analyze schema types usage
    rw [hsame]

/-- A column is declared of a table that the types did not name, while another one is missing. -/
theorem declared_on_unnamed_table :
    let schema : Schema := ⟨.ofList [("posts", ["id", "title"])], []⟩
    let declared : RowTypes := ⟨(∅ : ColumnSet).insertColumn "posts" "id"⟩
    let before := analyze schema {} {}
    let after := analyze schema declared {}
    "id" ∈ schema.columns.columnsOf "posts" ∧
    "id" ∈ (before.driftOf "posts").missingInTypes ∧
    after.issueCount .sync + 1 = before.issueCount .sync ∧ after.issueCount .sync = 1 ∧
    after.summary .usage = before.summary .usage := by
  intro schema declared before after
  have hid : "id" ∈ schema.columns.columnsOf "posts" := by decide
  have hmissing : "id" ∈ (before.driftOf "posts").missingInTypes := by decide
  have hexact := declared_column_removes_drift schema {} {} hid
  exact ⟨hid, hmissing, hexact.2.2.2.2.2.1 hmissing, by decide,
    (hexact.2.2.2.2.2.2.2.1 .usage (by decide)).2⟩

end SchemaDrift
