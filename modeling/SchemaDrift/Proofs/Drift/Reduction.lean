import Mathlib.Algebra.Order.BigOperators.Group.Finset
import SchemaDrift.Proofs.Drift.Selection

/-!
# Reducing a report

A report is reduced in steps: the findings of a comparison are discarded, or the tables that a
filter accepts are retained. What a run of steps leaves is said once, without the order of the steps
(`DriftReport.reduced`, `DriftReport.foldl_apply`), so steps commute and a step that is made twice
counts once. No step makes a comparison find more (`DriftReport.issueCount_apply_le`). Tables can
also be retained before the comparison: a table that is kept is compared with its own columns, and
its relations with the foreign keys that start at it (`get?_analyze_retain`).
-/

namespace SchemaDrift

/-- A step that reduces a report. -/
inductive ReportStep
  | discard (c : Comparison)
  | retain (f : TableFilter)
deriving DecidableEq

namespace ReportStep

/-- The report after a step. -/
def apply (r : DriftReport) : ReportStep → DriftReport
  | discard c => r.discard c
  | retain f => r.retainTables f

/-- Whether a step keeps a table. -/
def keeps (table : String) : ReportStep → Bool
  | discard _ => true
  | retain f => f.accepts table

/-- Whether the findings of a comparison are discarded by some of the steps. -/
def discardedBy (steps : List ReportStep) (c : Comparison) : Bool :=
  decide (discard c ∈ steps)

/-- Whether a table is kept by all of the steps, that is, accepted by all their filters. -/
def keptBy (steps : List ReportStep) (table : String) : Bool :=
  steps.all (keeps table)

/-- A comparison is discarded by the first step or by a later one. -/
theorem discardedBy_cons (s : ReportStep) (steps : List ReportStep) (c : Comparison) :
    discardedBy (s :: steps) c = (decide (s = discard c) || discardedBy steps c) := by
  simp [discardedBy, eq_comm]

/-- A table is kept if every filter among the steps accepts it. -/
theorem keptBy_iff {steps : List ReportStep} {t : String} :
    keptBy steps t ↔ ∀ f, retain f ∈ steps → f.accepts t := by
  rw [keptBy, List.all_eq_true]
  constructor
  · intro h f hf
    exact h (retain f) hf
  · intro h s hs
    cases s with
    | discard c => rfl
    | retain f => exact h f hs

end ReportStep

/-! ## What remains -/

/-- What remains for a table without the findings of some comparisons. -/
def TableDrift.without (d : TableDrift) (discarded : Comparison → Bool) : TableDrift where
  phantomBackend := if discarded .usage then ∅ else d.phantomBackend
  missingInTypes := if discarded .sync then ∅ else d.missingInTypes
  missingInSql := if discarded .sync then ∅ else d.missingInSql
  undeclaredRelations := if discarded .relations then ∅ else d.undeclaredRelations

/-- Discarding one comparison and then others discards them all. -/
theorem TableDrift.without_discard (d : TableDrift) (c : Comparison)
    (discarded : Comparison → Bool) :
    (d.discard c).without discarded =
      d.without fun c' => decide (c = c') || discarded c' := by
  cases c with
  | sync => cases h : discarded .sync <;> simp [without, discard, h]
  | usage => cases h : discarded .usage <;> simp [without, discard, h]
  | relations => cases h : discarded .relations <;> simp [without, discard, h]

namespace DriftReport

/-- The report on the tables that satisfy a test, without the findings of some comparisons. -/
def reduced (r : DriftReport) (discarded : Comparison → Bool) (keep : String → Bool) :
    DriftReport :=
  { r with
    tables := (r.tables.filterKeys keep).mapValues (·.without discarded)
    foreignKeys := r.foreignKeys.filter fun fk => keep fk.sourceTable }

/-- A table of a reduced report is one that is kept, without what is discarded. -/
theorem get?_reduced (r : DriftReport) (discarded : Comparison → Bool) (keep : String → Bool)
    (t : String) :
    (r.reduced discarded keep).tables.get? t =
      if keep t then (r.tables.get? t).map (·.without discarded) else none := by
  rw [reduced, SortedMap.get?_mapValues, SortedMap.get?_filterKeys]
  split <;> rfl

/-- Reports with the same entries, foreign keys, count and fingerprints are equal. -/
theorem ext_get? {a b : DriftReport} (htables : ∀ t, a.tables.get? t = b.tables.get? t)
    (hkeys : a.foreignKeys = b.foreignKeys) (hcount : a.relationCandidates = b.relationCandidates)
    (hschema : a.schemaFingerprint = b.schemaFingerprint)
    (htypes : a.typesFingerprint = b.typesFingerprint) : a = b := by
  have htables := SortedMap.ext_get? htables
  cases a
  cases b
  simp only at htables hkeys hcount hschema htypes
  subst htables hkeys hcount hschema htypes
  rfl

variable (r : DriftReport)

/-- A reduction that discards nothing and keeps all. -/
theorem reduced_none : r.reduced (fun _ => false) (fun _ => true) = r := by
  refine ext_get? (fun t => ?_) (List.filter_true _) rfl rfl rfl
  rw [get?_reduced, if_pos rfl]
  cases r.tables.get? t <;> rfl

/-- A step in front of a reduction is part of it. -/
theorem reduced_apply (s : ReportStep) (discarded : Comparison → Bool) (keep : String → Bool) :
    (s.apply r).reduced discarded keep =
      r.reduced (fun c => decide (s = .discard c) || discarded c) fun t => s.keeps t && keep t := by
  cases s with
  | discard c =>
    refine ext_get? (fun t => ?_) rfl rfl rfl rfl
    rw [get?_reduced, get?_reduced, ReportStep.apply, discard, SortedMap.get?_mapValues,
      Option.map_map]
    simp only [Function.comp_def, TableDrift.without_discard, ReportStep.discard.injEq]
    rfl
  | retain f =>
    refine ext_get? (fun t => ?_) ?_ rfl rfl rfl
    · rw [get?_reduced, get?_reduced, ReportStep.apply, retainTables, retain,
        SortedMap.get?_filterKeys, ReportStep.keeps]
      cases f.accepts t <;> simp
    · show (r.foreignKeys.filter _).filter _ = r.foreignKeys.filter _
      rw [List.filter_filter]
      exact List.filter_congr fun fk _ => Bool.and_comm ..

/-- What a run of steps leaves. -/
theorem foldl_apply (steps : List ReportStep) :
    steps.foldl ReportStep.apply r =
      r.reduced (ReportStep.discardedBy steps) (ReportStep.keptBy steps) := by
  induction steps generalizing r with
  | nil => exact r.reduced_none.symm
  | cons s steps ih =>
    rw [List.foldl_cons, ih, reduced_apply]
    congr 1
    funext c
    exact (ReportStep.discardedBy_cons s steps c).symm

/-! ## Counting -/

/-- A report with no more findings for every table has no more findings. -/
theorem issueCount_le_of_driftOf {a b : DriftReport} {c : Comparison}
    (h : ∀ t, (a.driftOf t).issueCount c ≤ (b.driftOf t).issueCount c) :
    a.issueCount c ≤ b.issueCount c := by
  rw [a.issueCount_eq_sum_of_subset c Finset.subset_union_left,
    b.issueCount_eq_sum_of_subset c Finset.subset_union_right]
  exact Finset.sum_le_sum fun t _ => h t

/-- Discarding a comparison takes away all its issues, and no others. -/
theorem issueCount_discard (d : TableDrift) (c c' : Comparison) :
    (d.discard c).issueCount c' = if c = c' then 0 else d.issueCount c' := by
  cases c <;> cases c' <;> rfl

/-- No step makes a comparison find more. -/
theorem issueCount_apply_le (s : ReportStep) (c : Comparison) :
    (s.apply r).issueCount c ≤ r.issueCount c := by
  refine issueCount_le_of_driftOf fun t => ?_
  cases s with
  | discard c' =>
    rw [ReportStep.apply, driftOf_discard, issueCount_discard]
    split
    · exact Nat.zero_le _
    · exact Nat.le_refl _
  | retain f =>
    rw [ReportStep.apply, retainTables, driftOf_retain]
    split
    · exact Nat.le_refl _
    · rw [issueCount_empty]
      exact Nat.zero_le _

end DriftReport

/-! ## Before the comparison -/

/-- The tables that satisfy a test, with their columns. -/
def ColumnSet.retain (s : ColumnSet) (keep : String → Bool) : ColumnSet :=
  ⟨s.tables.filterKeys keep⟩

/-- The schema on the tables that satisfy a test, with the foreign keys that start at them. -/
def Schema.retain (s : Schema) (keep : String → Bool) : Schema where
  columns := s.columns.retain keep
  foreignKeys := s.foreignKeys.filter fun fk => keep fk.sourceTable

/-- The types of the tables that satisfy a test. -/
def RowTypes.retain (s : RowTypes) (keep : String → Bool) : RowTypes where
  columns := s.columns.retain keep

/-- The usage of the tables that satisfy a test. Modules and relation candidates stay. -/
def Usage.retain (u : Usage) (keep : String → Bool) : Usage :=
  { u with columns := u.columns.retain keep }

section
variable (keep : String → Bool)

/-- The tables of a column set that is cut down are those that are kept. -/
theorem ColumnSet.containsTable_retain {s : ColumnSet} {t : String} :
    (s.retain keep).containsTable t ↔ keep t ∧ s.containsTable t := by
  rw [containsTable, SortedMap.contains, retain, SortedMap.get?_filterKeys]
  cases keep t with
  | true => simp [containsTable, SortedMap.contains]
  | false => simp

/-- The columns of a table that is kept stay the same. -/
theorem ColumnSet.columnsOf_retain {s : ColumnSet} {t : String} (h : keep t) :
    (s.retain keep).columnsOf t = s.columnsOf t := by
  rw [columnsOf, columns?, retain, SortedMap.get?_filterKeys, if_pos h]
  rfl

/-- The foreign keys that start at a table that is kept are kept with it. -/
theorem hasForeignKey_retain (schema : Schema) {t : String} (c : String) (h : keep t) :
    (schema.retain keep).hasForeignKey t c = schema.hasForeignKey t c := by
  rw [Bool.eq_iff_iff, hasForeignKey_iff, hasForeignKey_iff]
  constructor
  · rintro ⟨fk, hfk, ht, hc⟩
    exact ⟨fk, (List.mem_filter.1 hfk).1, ht, hc⟩
  · rintro ⟨fk, hfk, rfl, hc⟩
    exact ⟨fk, List.mem_filter.2 ⟨hfk, h⟩, rfl, hc⟩

variable (schema : Schema) (types : RowTypes) (usage : Usage)

/-- The drift of a table that is kept is that between the whole snapshots. -/
theorem tableDrift_retain {t : String} (h : keep t) :
    tableDrift (schema.retain keep) (types.retain keep) (usage.retain keep) t =
      tableDrift schema types usage t := by
  have hrelations : undeclaredRelations (schema.retain keep) (usage.retain keep) t =
      undeclaredRelations schema usage t := by
    simp only [undeclaredRelations, hasForeignKey_retain keep schema _ h]
    rfl
  simp only [tableDrift, Schema.retain, RowTypes.retain, Usage.retain,
    ColumnSet.columnsOf_retain keep h]
  exact congrArg (TableDrift.mk _ _ _) hrelations

/-- The comparison of retained snapshots has the entries that are retained. -/
theorem get?_analyze_retain (t : String) :
    (analyze (schema.retain keep) (types.retain keep) (usage.retain keep)).tables.get? t =
      ((analyze schema types usage).tables.filterKeys keep).get? t := by
  have hnamed : t ∈ namedTables (schema.retain keep) (types.retain keep) (usage.retain keep) ↔
      keep t ∧ t ∈ namedTables schema types usage := by
    rw [mem_namedTables, mem_namedTables, Schema.retain, RowTypes.retain, Usage.retain,
      ColumnSet.containsTable_retain, ColumnSet.containsTable_retain,
      ColumnSet.containsTable_retain]
    tauto
  rw [SortedMap.get?_filterKeys, analyze, analyze, SortedMap.get?_ofSet, SortedMap.get?_ofSet]
  by_cases h : keep t
  · simp only [hnamed, h, true_and, if_true, tableDrift_retain keep schema types usage h]
  · rw [if_neg h, if_neg fun hm => h (hnamed.1 hm).1]

end

/-- **Reducing a report does not depend on the order of the steps.** After any run of steps a report
has the entries of the tables that all filters accept, each without the findings of the discarded
comparisons and with all other findings, and the foreign keys, in order, that start at such tables;
the count of candidates and the fingerprints stay. So two runs that discard the same comparisons and
whose filters together accept the same tables leave the same report; steps may be made in any order
and more than once; and no step makes a comparison find more. Retaining tables after the comparison
of three snapshots gives the same entries and foreign keys as retaining them before. -/
theorem reduction_order_free :
    (∀ (r : DriftReport) (steps : List ReportStep),
      let final := steps.foldl ReportStep.apply r
      (∀ t, t ∈ final.tables.keys ↔
        t ∈ r.tables.keys ∧ ∀ f, .retain f ∈ steps → f.accepts t) ∧
      (∀ t ∈ final.tables.keys,
        (final.driftOf t).missingInTypes =
          (if .discard .sync ∈ steps then ∅ else (r.driftOf t).missingInTypes) ∧
        (final.driftOf t).missingInSql =
          (if .discard .sync ∈ steps then ∅ else (r.driftOf t).missingInSql) ∧
        (final.driftOf t).phantomBackend =
          (if .discard .usage ∈ steps then ∅ else (r.driftOf t).phantomBackend) ∧
        (final.driftOf t).undeclaredRelations =
          (if .discard .relations ∈ steps then ∅ else (r.driftOf t).undeclaredRelations)) ∧
      final.foreignKeys = r.foreignKeys.filter (fun fk => ReportStep.keptBy steps fk.sourceTable) ∧
      final.relationCandidates = r.relationCandidates ∧
      final.schemaFingerprint = r.schemaFingerprint ∧
      final.typesFingerprint = r.typesFingerprint) ∧
    (∀ (r : DriftReport) (steps steps' : List ReportStep),
      (∀ c, .discard c ∈ steps ↔ .discard c ∈ steps') →
      (∀ t, ReportStep.keptBy steps t = ReportStep.keptBy steps' t) →
      steps.foldl ReportStep.apply r = steps'.foldl ReportStep.apply r) ∧
    (∀ (r : DriftReport) (steps steps' : List ReportStep), steps.Perm steps' →
      steps.foldl ReportStep.apply r = steps'.foldl ReportStep.apply r) ∧
    (∀ (r : DriftReport) (steps : List ReportStep),
      (steps ++ steps).foldl ReportStep.apply r = steps.foldl ReportStep.apply r) ∧
    (∀ (r : DriftReport) (s : ReportStep) (c : Comparison),
      (s.apply r).issueCount c ≤ r.issueCount c) ∧
    ∀ (schema : Schema) (types : RowTypes) (usage : Usage) (f : TableFilter),
      let after := (analyze schema types usage).retainTables f
      let before := analyze (schema.retain f.accepts) (types.retain f.accepts)
        (usage.retain f.accepts)
      after.tables = before.tables ∧ after.foreignKeys = before.foreignKeys := by
  -- A run is known by what it discards and keeps, so equal runs are told by these.
  have hsame : ∀ (r : DriftReport) (steps steps' : List ReportStep),
      (∀ c, .discard c ∈ steps ↔ .discard c ∈ steps') →
      (∀ t, ReportStep.keptBy steps t = ReportStep.keptBy steps' t) →
      steps.foldl ReportStep.apply r = steps'.foldl ReportStep.apply r := by
    intro r steps steps' hdiscard hkeep
    have hdiscarded : ReportStep.discardedBy steps = ReportStep.discardedBy steps' :=
      funext fun c => decide_eq_decide.2 (hdiscard c)
    rw [r.foldl_apply, r.foldl_apply, hdiscarded, funext hkeep]
  refine ⟨fun r steps => ?_, hsame, fun r steps steps' hp => ?_, fun r steps => ?_,
    fun r s c => r.issueCount_apply_le s c, fun schema types usage f => ⟨?_, rfl⟩⟩
  · intro final
    have hfinal : final = r.reduced (ReportStep.discardedBy steps) (ReportStep.keptBy steps) :=
      r.foldl_apply steps
    have hkeys : ∀ t, t ∈ final.tables.keys ↔
        t ∈ r.tables.keys ∧ ∀ f, .retain f ∈ steps → f.accepts t := by
      intro t
      rw [hfinal, SortedMap.mem_keys, DriftReport.get?_reduced, SortedMap.mem_keys,
        ← ReportStep.keptBy_iff]
      cases ReportStep.keptBy steps t <;> simp
    refine ⟨hkeys, fun t ht => ?_, by rw [hfinal]; rfl, by rw [hfinal]; rfl, by rw [hfinal]; rfl,
      by rw [hfinal]; rfl⟩
    obtain ⟨hold, hkept⟩ := (hkeys t).1 ht
    obtain ⟨d, hd⟩ := Option.isSome_iff_exists.1 (SortedMap.mem_keys.1 hold)
    have hdrift : final.driftOf t = (r.driftOf t).without (ReportStep.discardedBy steps) := by
      rw [DriftReport.driftOf_of_get? hd]
      refine DriftReport.driftOf_of_get? ?_
      rw [hfinal, DriftReport.get?_reduced, if_pos (ReportStep.keptBy_iff.2 hkept), hd]
      rfl
    rw [hdrift]
    simp only [TableDrift.without, ReportStep.discardedBy, decide_eq_true_eq, and_self]
  · exact hsame r steps steps' (fun c => hp.mem_iff) fun t => hp.all_eq
  · refine hsame r (steps ++ steps) steps (fun c => ?_) fun t => ?_
    · rw [List.mem_append, or_self]
    · rw [ReportStep.keptBy, List.all_append, Bool.and_self]
      rfl
  · exact SortedMap.ext_get? fun t =>
      (get?_analyze_retain f.accepts schema types usage t).symm

/-- Discarding a comparison on both sides of a filter leaves what one step of each kind leaves: the
entry of the table that the filter accepts, with its other findings. -/
theorem discard_around_filter :
    let r := analyze ⟨.ofList [("a", ["b"]), ("c", ["d"])], []⟩ {} {}
    let f : TableFilter := { included := [⟨[.char 'a', .anySequence]⟩] }
    let final := [.discard .usage, .retain f, .discard .usage].foldl ReportStep.apply r
    final = [.retain f, .discard .usage].foldl ReportStep.apply r ∧
      "a" ∈ final.tables.keys ∧ (final.driftOf "a").missingInTypes = .ofList ["b"] := by
  intro r f final
  obtain ⟨hrun, hsame, -⟩ := reduction_order_free
  obtain ⟨hkeys, hdrift, -⟩ := hrun r [.discard .usage, .retain f, .discard .usage]
  have ha : "a" ∈ final.tables.keys := by
    refine (hkeys "a").2 ⟨by decide, fun g hg => ?_⟩
    have hgf : g = f := by simpa using hg
    rw [hgf]
    decide
  refine ⟨hsame r _ _ (fun c => by cases c <;> decide) fun t => ?_, ha, ?_⟩
  · simp [ReportStep.keptBy, ReportStep.keeps]
  · rw [(hdrift "a" ha).1]
    decide

end SchemaDrift
