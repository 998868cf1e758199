import SchemaDrift.Drift.Check
import SchemaDrift.Proofs.Collection.Lookup

/-!
# How findings are counted

A comparison is clean for a table exactly if it found nothing there (`TableDrift.isClean_iff`), so
the count of findings, the count of dirty tables and the verdict of a report all ask the same of
every table: `issueCount_eq_zero_iff`, `summary_dirty_eq_zero_iff`, `failingIssues_eq_zero_iff` and
`passed_iff` reduce each of them to `TableDrift.isClean`.
-/

namespace SchemaDrift

/-- A set is empty if it counts no elements. -/
theorem SortedSet.isEmpty_iff_size {α : Type} [Ord α] (s : SortedSet α) :
    s.isEmpty ↔ s.size = 0 := by
  simp [isEmpty, size]

/-- A set is empty if nothing is in it. -/
theorem SortedSet.isEmpty_iff {α : Type} [Ord α] (s : SortedSet α) : s.isEmpty ↔ ∀ a, a ∉ s := by
  rw [isEmpty, List.isEmpty_iff]
  exact List.eq_nil_iff_forall_not_mem

namespace TableDrift

/-- A comparison is clean for a table exactly if it found nothing there. -/
theorem isClean_iff (d : TableDrift) (c : Comparison) : d.isClean c ↔ d.issueCount c = 0 := by
  cases c with
  | sync =>
    simp only [isClean, isSynchronized, issueCount, Bool.and_eq_true, SortedSet.isEmpty_iff_size]
    omega
  | usage => simp [isClean, isDirty, issueCount, SortedSet.isEmpty_iff_size]
  | relations => simp [isClean, issueCount, SortedSet.isEmpty_iff_size]

/-- A table is clean on a comparison whose findings are discarded, and as clean as it was on every
other one. -/
theorem isClean_discard (d : TableDrift) (c c' : Comparison) :
    (d.discard c).isClean c' ↔ c = c' ∨ d.isClean c' := by
  cases c <;> cases c' <;> simp [discard, isClean, isSynchronized, isDirty] <;> rfl

end TableDrift

namespace DriftReport

variable (r : DriftReport)

/-- No issue is counted exactly if every table is clean. -/
theorem issueCount_eq_zero_iff (c : Comparison) :
    r.issueCount c = 0 ↔ ∀ d ∈ r.tables.values, d.isClean c := by
  show (r.tables.values.map (·.issueCount c)).sum = 0 ↔ _
  rw [List.sum_eq_zero_iff_forall_eq_nat]
  simp only [List.forall_mem_map, TableDrift.isClean_iff]

/-- The tables of a report are counted by their drifts. -/
theorem size_eq_length_values : r.tables.size = r.tables.values.length := by
  simp [SortedMap.size, SortedMap.values]

/-- There are at most as many clean tables as tables. -/
theorem summary_clean_le_total (c : Comparison) : (r.summary c).clean ≤ (r.summary c).total := by
  show (r.tables.values.filter (·.isClean c)).length ≤ r.tables.size
  rw [size_eq_length_values]
  exact List.length_filter_le _ _

/-- Every table is clean or dirty, and none is both. -/
theorem summary_clean_add_dirty (c : Comparison) :
    (r.summary c).clean + (r.summary c).dirty = (r.summary c).total := by
  have hle := r.summary_clean_le_total c
  have hd : (r.summary c).dirty = (r.summary c).total - (r.summary c).clean := rfl
  omega

/-- The dirty tables of a summary are those that are not clean. -/
theorem summary_dirty (c : Comparison) :
    (r.summary c).dirty = (r.tables.values.filter (!·.isClean c)).length := by
  have hsplit := List.length_eq_length_filter_add (l := r.tables.values) (·.isClean c)
  have hd : (r.summary c).dirty =
      r.tables.size - (r.tables.values.filter (·.isClean c)).length := rfl
  rw [hd, size_eq_length_values]
  omega

/-- No table is dirty exactly if every table is clean. -/
theorem summary_dirty_eq_zero_iff (c : Comparison) :
    (r.summary c).dirty = 0 ↔ ∀ d ∈ r.tables.values, d.isClean c := by
  rw [summary_dirty, List.length_eq_zero_iff, List.filter_eq_nil_iff]
  simp

/-- Every dirty table has at least one finding. -/
theorem summary_dirty_le_issueCount (c : Comparison) : (r.summary c).dirty ≤ r.issueCount c := by
  rw [summary_dirty]
  show _ ≤ (r.tables.values.map (·.issueCount c)).sum
  induction r.tables.values with
  | nil => simp
  | cons d ds ih =>
    have hd := d.isClean_iff c
    rw [List.filter_cons, List.map_cons, List.sum_cons]
    split
    · next h =>
      have hpos : d.issueCount c ≠ 0 := fun h0 => by simp [hd.2 h0] at h
      rw [List.length_cons]
      omega
    · omega

/-- The findings that fail a check are none exactly if every table is clean on every comparison that
the check selects and that is more than advice. -/
theorem failingIssues_eq_zero_iff (k : Check) :
    r.failingIssues k = 0 ↔
      ∀ c ∈ k.comparisons, ¬ c.isAdvisory → ∀ d ∈ r.tables.values, d.isClean c := by
  show ((k.comparisons.filter fun c => !c.isAdvisory).map r.issueCount).sum = 0 ↔ _
  rw [List.sum_eq_zero_iff_forall_eq_nat]
  simp only [List.forall_mem_map, List.mem_filter, issueCount_eq_zero_iff]
  constructor
  · exact fun h c hc ha => h c ⟨hc, by simpa using ha⟩
  · exact fun h c hc => h c hc.1 (by simpa using hc.2)

/-- The status is clean exactly if no issue counts against the check. -/
theorem status_eq_clean_iff (k : Check) : r.status k = .clean ↔ r.failingIssues k = 0 := by
  rw [status]
  split <;> simp_all

/-- A report passes if every table is clean on every comparison that is more than advice. -/
theorem passed_iff :
    r.passed ↔ ∀ c : Comparison, ¬ c.isAdvisory → ∀ d ∈ r.tables.values, d.isClean c := by
  rw [passed, List.all_eq_true]
  constructor
  · intro h c ha d hd
    have hd' := h d hd
    cases c with
    | sync => exact (Bool.and_eq_true _ _ ▸ hd').2
    | usage => exact (Bool.and_eq_true _ _ ▸ hd').1
    | relations => exact absurd rfl ha
  · intro h d hd
    rw [Bool.and_eq_true]
    exact ⟨h .usage (by decide) d hd, h .sync (by decide) d hd⟩

end DriftReport

end SchemaDrift
