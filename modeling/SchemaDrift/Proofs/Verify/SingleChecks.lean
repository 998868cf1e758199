import SchemaDrift.Proofs.Drift.Selection
import SchemaDrift.Proofs.Query.Candidates

/-!
# A full check and the single checks

A check that makes one comparison reads fewer inputs, so its report has fewer tables; yet it finds
what a full check finds by that comparison. The comparisons of columns do not depend on the snapshot
that was not read (`missingInTypes_analyze` and its neighbours), and the tables of relation
candidates are tables of the usage (`containsTable_of_mem_candidates`), so no undeclared relation is
lost with the type file (`undeclaredRelations_analyze`). Where a full check has a result, so has each
single check (`verify_single`), and their findings make up those of the full check
(`full_check_combines`).
-/

namespace SchemaDrift

/-! ## Reports -/

/-- Usage whose relation candidates name only tables that are in use. -/
def Usage.Grounded (u : Usage) : Prop :=
  ∀ c ∈ u.relationCandidates, ∀ t ∈ c.tables, u.columns.containsTable t

/-- The undeclared relations of a table depend on the schema and the usage only. -/
theorem undeclaredRelations_analyze (schema : Schema) (types : RowTypes) {usage : Usage}
    (h : usage.Grounded) (t : String) :
    ((analyze schema types usage).driftOf t).undeclaredRelations =
      undeclaredRelations schema usage t := by
  by_cases ht : t ∈ (analyze schema types usage).tables.keys
  · rw [driftOf_analyze_of_mem schema types usage t ht]
    rfl
  · rw [DriftReport.driftOf_of_not_mem ht]
    refine SortedSet.ext_mem fun m => iff_of_false SortedSet.not_mem_empty fun hm => ht ?_
    obtain ⟨c, hc, htc, -, -⟩ := mem_undeclaredRelations.1 hm
    exact (mem_keys_analyze schema types usage t).2 (.inr (.inr (h c hc t htc)))

/-- A report with the findings of three others, each of which made one comparison. -/
structure DriftReport.Combines (all sync usage relations : DriftReport) : Prop where
  missingInTypes : ∀ t, (all.driftOf t).missingInTypes = (sync.driftOf t).missingInTypes
  missingInSql : ∀ t, (all.driftOf t).missingInSql = (sync.driftOf t).missingInSql
  phantomBackend : ∀ t, (all.driftOf t).phantomBackend = (usage.driftOf t).phantomBackend
  undeclaredRelations : ∀ t,
    (all.driftOf t).undeclaredRelations = (relations.driftOf t).undeclaredRelations

section
variable (schema : Schema) (types : RowTypes) {usage : Usage} (f : TableFilter)

/-- The report of all checks combines the reports of the single ones. -/
theorem combines_checkedReport (h : usage.Grounded) :
    (checkedReport .all f (analyze schema types usage)).Combines
      (checkedReport .sync f (analyze schema types {}))
      (checkedReport .usage f (analyze schema {} usage))
      (checkedReport .relations f (analyze schema {} usage)) where
  missingInTypes t := by
    rw [driftOf_checkedReport, driftOf_checkedReport]
    split
    · exact (missingInTypes_analyze ..).trans (missingInTypes_analyze ..).symm
    · rfl
  missingInSql t := by
    rw [driftOf_checkedReport, driftOf_checkedReport]
    split
    · exact (missingInSql_analyze ..).trans (missingInSql_analyze ..).symm
    · rfl
  phantomBackend t := by
    rw [driftOf_checkedReport, driftOf_checkedReport]
    split
    · exact (phantomBackend_analyze ..).trans (phantomBackend_analyze ..).symm
    · rfl
  undeclaredRelations t := by
    rw [driftOf_checkedReport, driftOf_checkedReport]
    split
    · exact (undeclaredRelations_analyze schema types h t).trans
        (undeclaredRelations_analyze schema {} h t).symm
    · rfl

end

namespace DriftReport.Combines

variable {all sync usage relations : DriftReport} (h : all.Combines sync usage relations)
include h

/-- The issues between schema and types are those of the single check. -/
theorem issueCount_sync : all.issueCount .sync = sync.issueCount .sync := by
  refine issueCount_eq_of_driftOf fun t => ?_
  rw [TableDrift.issueCount, TableDrift.issueCount, h.missingInTypes, h.missingInSql]

/-- The issues of usage are those of the single check. -/
theorem issueCount_usage : all.issueCount .usage = usage.issueCount .usage := by
  refine issueCount_eq_of_driftOf fun t => ?_
  rw [TableDrift.issueCount, TableDrift.issueCount, h.phantomBackend]

/-- The failing findings of a full check are those of two single checks; relations never fail. -/
theorem failingIssues_all :
    all.failingIssues .all = sync.failingIssues .sync + usage.failingIssues .usage := by
  show all.issueCount .sync + all.issueCount .usage = _
  rw [h.issueCount_sync, h.issueCount_usage]
  rfl

/-- All checks together are clean exactly if those that can fail are clean by themselves. -/
theorem status_all_eq_clean_iff :
    all.status .all = .clean ↔ sync.status .sync = .clean ∧ usage.status .usage = .clean := by
  rw [status_eq_clean_iff, status_eq_clean_iff, status_eq_clean_iff, h.failingIssues_all]
  exact Nat.add_eq_zero_iff

end DriftReport.Combines

/-! ## Runs -/

/-- What modules use is grounded. -/
theorem Query.grounded_extract (p : Pairing) (ms : List Source) :
    (extract p ms).snapshot.Grounded :=
  fun _ hc _ ht => containsTable_of_mem_candidates hc ht

/-- Where a full check has a result, so has each single check, from the sources it needs. -/
theorem verify_single {t : Files.FileTree} {o : Options} {v : Verification}
    (h : verify t { o with check := .all } = .ok v) :
    ∃ (f : TableFilter) (ms : List Source) (ty : Source) (mo : List Source),
      v = verifySources { o with check := .all } f ms (some ty) (some mo) ∧
      verify t { o with check := .sync } =
        .ok (verifySources { o with check := .sync } f ms (some ty) none) ∧
      verify t { o with check := .usage } =
        .ok (verifySources { o with check := .usage } f ms none (some mo)) ∧
      verify t { o with check := .relations } =
        .ok (verifySources { o with check := .relations } f ms none (some mo)) := by
  obtain ⟨f, ms, ty?, mo?, hf, hms, hty, hmo, rfl⟩ := verify_eq_ok_iff.1 h
  change (Files.loadTypes t o.typesFile).map some = .ok ty? at hty
  change (Files.loadModules t o.modulesDir o.moduleFile).map some = .ok mo? at hmo
  cases hload : Files.loadTypes t o.typesFile with
  | error e => rw [hload] at hty; cases hty
  | ok ty =>
    cases hmods : Files.loadModules t o.modulesDir o.moduleFile with
    | error e => rw [hmods] at hmo; cases hmo
    | ok mo =>
      rw [hload] at hty
      rw [hmods] at hmo
      cases hty
      cases hmo
      have htypes : ({ o with check := .sync } : Options).typeFile t = .ok (some ty) := by
        show (Files.loadTypes t o.typesFile).map some = _
        rw [hload]
        rfl
      have hmodules : (Files.loadModules t o.modulesDir o.moduleFile).map some = .ok (some mo) := by
        rw [hmods]
        rfl
      refine ⟨f, ms.sources, ty.1, mo.sources, rfl, ?_, ?_, ?_⟩
      · exact verify_eq_ok_iff.2 ⟨f, ms, some ty, none, hf, hms, htypes, rfl, rfl⟩
      · exact verify_eq_ok_iff.2 ⟨f, ms, none, some mo, hf, hms, rfl, hmodules, rfl⟩
      · exact verify_eq_ok_iff.2 ⟨f, ms, none, some mo, hf, hms, rfl, hmodules, rfl⟩

/-- **A full check combines the single checks.** If a run that makes all comparisons has a result,
so have the three runs that make one of them, with the same inputs, pairing and filter. At every
table the full report has the findings of each single report for its comparison, and all four
declare the same foreign keys. So the full check has as many failing findings as the two single
checks that can fail, and it is clean exactly if both are. -/
theorem full_check_combines (t : Files.FileTree) (o : Options) (all : Verification)
    (h : verify t { o with check := .all } = .ok all) :
    ∃ sync usage relations : Verification,
      verify t { o with check := .sync } = .ok sync ∧
      verify t { o with check := .usage } = .ok usage ∧
      verify t { o with check := .relations } = .ok relations ∧
      (∀ table,
        (all.report.driftOf table).missingInTypes = (sync.report.driftOf table).missingInTypes ∧
        (all.report.driftOf table).missingInSql = (sync.report.driftOf table).missingInSql ∧
        (all.report.driftOf table).phantomBackend = (usage.report.driftOf table).phantomBackend ∧
        (all.report.driftOf table).undeclaredRelations =
          (relations.report.driftOf table).undeclaredRelations) ∧
      sync.report.foreignKeys = all.report.foreignKeys ∧
      usage.report.foreignKeys = all.report.foreignKeys ∧
      relations.report.foreignKeys = all.report.foreignKeys ∧
      all.report.failingIssues .all =
        sync.report.failingIssues .sync + usage.report.failingIssues .usage ∧
      (all.status = .clean ↔ sync.status = .clean ∧ usage.status = .clean) := by
  obtain ⟨f, ms, ty, mo, rfl, hsync, husage, hrelations⟩ := verify_single h
  have hcombines := combines_checkedReport (Migration.extract ms).snapshot
    (RowType.extract ty).snapshot f (Query.grounded_extract o.pairing mo)
  have hkeys (k : Check) (types : RowTypes) (usage : Usage) :
      (checkedReport k f (analyze (Migration.extract ms).snapshot types usage)).foreignKeys =
        (Migration.extract ms).snapshot.foreignKeys.filter fun fk => f.accepts fk.sourceTable :=
    foreignKeys_checkedReport k f _
  refine ⟨_, _, _, hsync, husage, hrelations, fun table => ⟨hcombines.missingInTypes table,
    hcombines.missingInSql table, hcombines.phantomBackend table,
    hcombines.undeclaredRelations table⟩, ?_, ?_, ?_, hcombines.failingIssues_all,
    hcombines.status_all_eq_clean_iff⟩
  · exact (hkeys .sync _ _).trans (hkeys .all _ _).symm
  · exact (hkeys .usage _ _).trans (hkeys .all _ _).symm
  · exact (hkeys .relations _ _).trans (hkeys .all _ _).symm

/-- A project with a column that only its schema has and a table that only its module uses. -/
def mixedProject : Files.FileTree :=
  ((({} : Files.FileTree).addFile "m/1.sql" (Text.utf8 "CREATE TABLE a (b c);".toList)).addFile
    "t.ts" (Text.utf8 "d: { Row: { e: f } };".toList)).addFile
    "s/index.ts" (Text.utf8 "sb.from('g').eq('h_id', i);".toList)

/-- The options of a run on that project, which leaves out one table. -/
def mixedOptions : Options :=
  { migrationsDir := "m", typesFile := "t.ts", modulesDir := "s", excludeTables := ["d"] }

/-- On that project the check of schema and types has one failing finding, so the full check has
that one and those of the check of usage. -/
theorem mixedProject_combines :
    ∃ all sync usage : Verification,
      verify mixedProject mixedOptions = .ok all ∧
      verify mixedProject { mixedOptions with check := .sync } = .ok sync ∧
      verify mixedProject { mixedOptions with check := .usage } = .ok usage ∧
      sync.report.failingIssues .sync = 1 ∧
      all.report.failingIssues .all =
        sync.report.failingIssues .sync + usage.report.failingIssues .usage := by
  have hrun : (match verify mixedProject mixedOptions with
      | .ok _ => true
      | .error _ => false) = true := by decide +kernel
  have hissue : (match verify mixedProject { mixedOptions with check := .sync } with
      | .ok v => v.report.failingIssues .sync
      | .error _ => 0) = 1 := by decide +kernel
  cases h : verify mixedProject mixedOptions with
  | error e => rw [h] at hrun; cases hrun
  | ok all =>
    obtain ⟨sync, usage, _, hsync, husage, _, _, _, _, _, hissues, _⟩ :=
      full_check_combines mixedProject mixedOptions all h
    rw [hsync] at hissue
    exact ⟨all, sync, usage, rfl, hsync, husage, hissue, hissues⟩

end SchemaDrift
