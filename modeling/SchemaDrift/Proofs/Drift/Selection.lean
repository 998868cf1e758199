import Mathlib.Algebra.BigOperators.Group.Finset.Basic
import SchemaDrift.Proofs.Drift.Difference

/-!
# Reports after a selection

A run leaves out the comparisons that its check does not select and the tables that its filter does
not keep. What remains for a table depends on what the report had for that table only
(`driftOf_checkedReport`), and a comparison has as many findings as the tables have together,
whether or not a table without findings has an entry (`issueCount_eq_of_driftOf`).
-/

namespace SchemaDrift

namespace DriftReport

variable (r : DriftReport)

/-! ## Discarding and retaining -/

/-- Discarding a comparison discards it from the drift of every table. -/
theorem driftOf_discard (c : Comparison) (t : String) :
    (r.discard c).driftOf t = (r.driftOf t).discard c := by
  rw [driftOf, driftOf, discard, SortedMap.get?_mapValues]
  cases r.tables.get? t with
  | none => cases c <;> rfl
  | some d => rfl

/-- Discarding several comparisons discards them from the drift of every table. -/
theorem driftOf_foldl_discard (cs : List Comparison) (t : String) :
    (cs.foldl discard r).driftOf t = cs.foldl TableDrift.discard (r.driftOf t) := by
  induction cs generalizing r with
  | nil => rfl
  | cons c cs ih => rw [List.foldl_cons, ih, driftOf_discard, List.foldl_cons]

/-- Discarding comparisons keeps the foreign keys. -/
theorem foreignKeys_foldl_discard (cs : List Comparison) :
    (cs.foldl discard r).foreignKeys = r.foreignKeys := by
  induction cs generalizing r with
  | nil => rfl
  | cons c cs ih => exact ih (r.discard c)

/-- A table that is not retained drifts by nothing, and the others keep their drift. -/
theorem driftOf_retain (keep : String → Bool) (t : String) :
    (r.retain keep).driftOf t = if keep t then r.driftOf t else {} := by
  rw [driftOf, retain, SortedMap.get?_filterKeys]
  split
  · rfl
  · rfl

end DriftReport

/-- A filter without patterns keeps every table. -/
theorem TableFilter.accepts_of_isEmpty {f : TableFilter} (h : f.isEmpty) (t : String) :
    f.accepts t := by
  obtain ⟨hin, hex⟩ := Bool.and_eq_true .. ▸ h
  rw [List.isEmpty_iff] at hin hex
  simp [accepts, hin, hex]

namespace Check

/-- The findings of the comparisons that a check selects. -/
def select (k : Check) (d : TableDrift) : TableDrift :=
  (Comparison.all.filter (!k.includes ·)).foldl TableDrift.discard d

end Check

/-- What a run has for a table: nothing if its filter leaves the table out, and else the findings of
the comparisons that its check selects. -/
theorem driftOf_checkedReport (k : Check) (f : TableFilter) (r : DriftReport) (t : String) :
    (checkedReport k f r).driftOf t = if f.accepts t then k.select (r.driftOf t) else {} := by
  rw [checkedReport]
  split
  · next h =>
    rw [if_pos (TableFilter.accepts_of_isEmpty h t)]
    exact r.driftOf_foldl_discard _ t
  · rw [DriftReport.retainTables, DriftReport.driftOf_retain, DriftReport.driftOf_foldl_discard]
    rfl

/-- The foreign keys of a checked report are those that start at a table which the filter
accepts. -/
theorem foreignKeys_checkedReport (k : Check) (f : TableFilter) (r : DriftReport) :
    (checkedReport k f r).foreignKeys = r.foreignKeys.filter fun fk => f.accepts fk.sourceTable := by
  rw [checkedReport]
  split
  · next h =>
    rw [DriftReport.foreignKeys_foldl_discard]
    exact (List.filter_eq_self.2 fun fk _ => TableFilter.accepts_of_isEmpty h fk.sourceTable).symm
  · show (DriftReport.foreignKeys _).filter _ = _
    rw [DriftReport.foreignKeys_foldl_discard]

/-! ## Counting -/

namespace DriftReport

/-- A table without drift has no issues. -/
theorem issueCount_empty (c : Comparison) : ({} : TableDrift).issueCount c = 0 := by
  cases c <;> rfl

/-- The findings of a comparison, counted table by table. -/
theorem issueCount_eq_sum (r : DriftReport) (c : Comparison) :
    r.issueCount c = ∑ t ∈ r.tables.keys.toList.toFinset, (r.driftOf t).issueCount c := by
  have hnodup : r.tables.keys.toList.Nodup := r.tables.nodup_keys
  have hentries : r.tables.values.map (·.issueCount c) =
      r.tables.keys.toList.map fun t => (r.driftOf t).issueCount c := by
    show (r.tables.entries.map (·.2)).map _ = (r.tables.entries.map (·.1)).map _
    rw [List.map_map, List.map_map]
    refine List.map_congr_left fun e he => ?_
    have hdrift : r.driftOf e.1 = e.2 := driftOf_of_get? (SortedMap.get?_of_mem_entries he)
    exact congrArg (·.issueCount c) hdrift.symm
  rw [List.sum_toFinset _ hnodup, ← hentries]
  rfl

/-- Only the tables with findings count, so any set that holds them gives the count. -/
theorem issueCount_eq_sum_of_subset (r : DriftReport) (c : Comparison) {s : Finset String}
    (h : r.tables.keys.toList.toFinset ⊆ s) :
    r.issueCount c = ∑ t ∈ s, (r.driftOf t).issueCount c := by
  rw [issueCount_eq_sum]
  refine Finset.sum_subset h fun t _ ht => ?_
  rw [driftOf_of_not_mem fun hmem => ht (List.mem_toFinset.2 hmem), issueCount_empty]

/-- Reports with as many findings for every table have as many findings. -/
theorem issueCount_eq_of_driftOf {a b : DriftReport} {c : Comparison}
    (h : ∀ t, (a.driftOf t).issueCount c = (b.driftOf t).issueCount c) :
    a.issueCount c = b.issueCount c := by
  rw [a.issueCount_eq_sum_of_subset c Finset.subset_union_left,
    b.issueCount_eq_sum_of_subset c Finset.subset_union_right]
  exact Finset.sum_congr rfl fun t _ => h t

end DriftReport

end SchemaDrift
