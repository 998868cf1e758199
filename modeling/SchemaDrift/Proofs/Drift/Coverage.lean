import SchemaDrift.Proofs.Drift.Findings
import SchemaDrift.Proofs.Snapshot.Columns
import SchemaDrift.Verify.Run

/-!
# Usage that covers other usage

`Usage.CoveredBy` says that one usage is found within another: the same modules and tables, no
column beyond those of the other, and the same relation candidates, each on no further table. The
comparison of snapshots keeps this (`analyze_coveredBy`): a report on less usage has the same tables
and the same findings on schema and types, and no further finding on usage and relations
(`DriftReport.CoveredBy`). Leaving out comparisons and tables keeps it too
(`checkedReport_coveredBy`), so what is clean on more usage is clean on less.
-/

namespace SchemaDrift

/-- A relation candidate with the column and argument of another, on no further table. -/
structure RelationCandidate.CoveredBy (a b : RelationCandidate) : Prop where
  module : a.module = b.module
  column : a.column = b.column
  argument : a.argument = b.argument
  tables : ∀ t ∈ a.tables, t ∈ b.tables

/-- Usage of the modules and tables of another, with no further column of a table and with the same
relation candidates in order, each on no further table. -/
structure Usage.CoveredBy (a b : Usage) : Prop where
  modules : a.modules = b.modules
  tableNames : a.columns.tableNames = b.columns.tableNames
  columns : ∀ t c, c ∈ a.columns.columnsOf t → c ∈ b.columns.columnsOf t
  candidates : List.Forall₂ RelationCandidate.CoveredBy a.relationCandidates b.relationCandidates

/-- The drift of a table with the findings of another on schema and types, and with no further
finding on usage and relations. -/
structure TableDrift.CoveredBy (a b : TableDrift) : Prop where
  missingInTypes : a.missingInTypes = b.missingInTypes
  missingInSql : a.missingInSql = b.missingInSql
  phantomBackend : ∀ c ∈ a.phantomBackend, c ∈ b.phantomBackend
  undeclaredRelations : ∀ m ∈ a.undeclaredRelations, m ∈ b.undeclaredRelations

/-- A report on the tables of another, each of which is covered there. -/
def DriftReport.CoveredBy (a b : DriftReport) : Prop :=
  ∀ t, Option.Rel TableDrift.CoveredBy (a.tables.get? t) (b.tables.get? t)

/-! ## Comparison -/

/-- What is related element by element: every element of the first list has a partner in the
second. -/
theorem exists_of_mem_forall₂ {α β : Type} {R : α → β → Prop} {xs : List α} {ys : List β}
    (h : List.Forall₂ R xs ys) {x : α} (hx : x ∈ xs) : ∃ y ∈ ys, R x y := by
  induction h with
  | nil => cases hx
  | @cons a b xs ys hab _ ih =>
    rcases List.mem_cons.1 hx with rfl | hx
    · exact ⟨b, List.mem_cons_self, hab⟩
    · obtain ⟨y, hy, hxy⟩ := ih hx
      exact ⟨y, List.mem_cons_of_mem _ hy, hxy⟩

/-- A relation is undeclared on a table if a candidate on the table has its module and column, and
no foreign key starts there. -/
theorem mem_undeclaredRelations {schema : Schema} {usage : Usage} {t : String} {m : ModuleColumn} :
    m ∈ undeclaredRelations schema usage t ↔
      ∃ c ∈ usage.relationCandidates, t ∈ c.tables ∧ ¬ schema.hasForeignKey t c.column ∧
        (⟨c.module, c.column⟩ : ModuleColumn) = m := by
  simp only [undeclaredRelations, Usage.candidatesFor, SortedSet.mem_ofList, List.mem_map,
    List.mem_filter, decide_eq_true_eq, Bool.not_eq_true', Bool.not_eq_true, and_assoc]

section
variable {a b : Usage} (h : a.CoveredBy b)
include h

/-- If a usage is covered by another, so is what each table drifts by. -/
theorem tableDrift_coveredBy (schema : Schema) (types : RowTypes) (t : String) :
    (tableDrift schema types a t).CoveredBy (tableDrift schema types b t) where
  missingInTypes := rfl
  missingInSql := rfl
  phantomBackend c hc := by
    obtain ⟨hu, hs⟩ := SortedSet.mem_diff.1 hc
    exact SortedSet.mem_diff.2 ⟨h.columns t c hu, hs⟩
  undeclaredRelations m hm := by
    obtain ⟨c, hc, ht, hk, rfl⟩ := mem_undeclaredRelations.1 hm
    obtain ⟨d, hd, hcd⟩ := exists_of_mem_forall₂ h.candidates hc
    refine mem_undeclaredRelations.2 ⟨d, hd, hcd.tables t ht, ?_, ?_⟩
    · rwa [← hcd.column]
    · rw [hcd.module, hcd.column]

/-- Usages of which one covers the other, with the same tables, name the same tables of a
project. -/
theorem namedTables_eq_of_coveredBy (schema : Schema) (types : RowTypes) :
    namedTables schema types a = namedTables schema types b := by
  rw [namedTables, namedTables, h.tableNames]

/-- A report on less usage is covered by the report on more. -/
theorem analyze_coveredBy (schema : Schema) (types : RowTypes) :
    (analyze schema types a).CoveredBy (analyze schema types b) := by
  intro t
  show Option.Rel _ ((SortedMap.ofSet _ _).get? t) ((SortedMap.ofSet _ _).get? t)
  rw [SortedMap.get?_ofSet, SortedMap.get?_ofSet, namedTables_eq_of_coveredBy h]
  split
  · exact .some (tableDrift_coveredBy h schema types t)
  · exact .none

end

/-! ## Reports -/

/-- Discarding a comparison keeps the drift of one table within that of the other. -/
theorem TableDrift.CoveredBy.discard {a b : TableDrift} (h : a.CoveredBy b) (c : Comparison) :
    (a.discard c).CoveredBy (b.discard c) := by
  cases c with
  | sync => exact ⟨rfl, rfl, h.phantomBackend, h.undeclaredRelations⟩
  | usage => exact ⟨h.missingInTypes, h.missingInSql, fun _ hc => hc, h.undeclaredRelations⟩
  | relations => exact ⟨h.missingInTypes, h.missingInSql, h.phantomBackend, fun _ hm => hm⟩

/-- A table that is clean with more findings is clean with less. -/
theorem TableDrift.CoveredBy.isClean {a b : TableDrift} (h : a.CoveredBy b) {c : Comparison}
    (hb : b.isClean c) : a.isClean c := by
  cases c with
  | sync =>
    rw [TableDrift.isClean, TableDrift.isSynchronized, h.missingInTypes, h.missingInSql]
    exact hb
  | usage =>
    simp only [TableDrift.isClean, TableDrift.isDirty, Bool.not_not] at hb ⊢
    rw [SortedSet.isEmpty_iff] at hb ⊢
    exact fun x hx => hb x (h.phantomBackend x hx)
  | relations =>
    simp only [TableDrift.isClean] at hb ⊢
    rw [SortedSet.isEmpty_iff] at hb ⊢
    exact fun x hx => hb x (h.undeclaredRelations x hx)

namespace DriftReport.CoveredBy

variable {a b : DriftReport} (h : a.CoveredBy b)
include h

/-- A report and one that covers it have the same tables. -/
theorem keys_eq : a.tables.keys = b.tables.keys :=
  SortedMap.keys_eq_of_rel h

/-- Discarding a comparison keeps a report covered. -/
theorem discard (c : Comparison) : (a.discard c).CoveredBy (b.discard c) := by
  intro t
  have ht := h t
  show Option.Rel _ ((a.tables.mapValues _).get? t) ((b.tables.mapValues _).get? t)
  rw [SortedMap.get?_mapValues, SortedMap.get?_mapValues]
  generalize a.tables.get? t = x at ht ⊢
  generalize b.tables.get? t = y at ht ⊢
  cases ht with
  | some hd => exact .some (hd.discard c)
  | none => exact .none

/-- Retaining some tables keeps a report covered. -/
theorem retain (keep : String → Bool) : (a.retain keep).CoveredBy (b.retain keep) := by
  intro t
  show Option.Rel _ ((a.tables.filterKeys _).get? t) ((b.tables.filterKeys _).get? t)
  rw [SortedMap.get?_filterKeys, SortedMap.get?_filterKeys]
  split
  · exact h t
  · exact .none

/-- Discarding several comparisons keeps a report covered. -/
theorem foldl_discard (cs : List Comparison) :
    (cs.foldl DriftReport.discard a).CoveredBy (cs.foldl DriftReport.discard b) := by
  induction cs generalizing a b with
  | nil => exact h
  | cons c cs ih => exact ih (h.discard c)

/-- A check that is clean on more usage is clean on less. -/
theorem status_eq_clean {k : Check} (hb : b.status k = .clean) : a.status k = .clean := by
  rw [status_eq_clean_iff, failingIssues_eq_zero_iff] at hb ⊢
  intro c hc hadv d hd
  obtain ⟨t, ht⟩ := SortedMap.mem_values.1 hd
  have hrel := h t
  rw [ht] at hrel
  generalize hy : b.tables.get? t = y at hrel
  cases hrel with
  | some hcov => exact hcov.isClean (hb c hc hadv _ (SortedMap.mem_values.2 ⟨t, hy⟩))

end DriftReport.CoveredBy

/-- The report of a run keeps coverage: it leaves out the same comparisons and tables. -/
theorem checkedReport_coveredBy {a b : DriftReport} (h : a.CoveredBy b) (k : Check)
    (f : TableFilter) : (checkedReport k f a).CoveredBy (checkedReport k f b) := by
  have hsel := h.foldl_discard (Comparison.all.filter (!k.includes ·))
  simp only [checkedReport]
  split
  · exact hsel
  · exact hsel.retain f.accepts

end SchemaDrift
