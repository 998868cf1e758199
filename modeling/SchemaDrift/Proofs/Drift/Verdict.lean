import SchemaDrift.Drift.JsonReport
import SchemaDrift.Drift.TextReport
import SchemaDrift.Proofs.Drift.Findings
import SchemaDrift.Proofs.Snapshot.Fingerprint
import SchemaDrift.Proofs.Verify.Inputs

/-!
# The verdicts of a run agree

A report is judged in several places: by its exit status, by the count of failing issues, by the
dirty tables of its summaries, by the last line of its text and by a member of its JSON text. They
all say the same (`verdicts_agree`). `DriftReport.passed` knows no check, yet after a run it agrees
with the verdict on the check, since a run discards what its check does not select
(`passed_checkedReport`).
-/

namespace SchemaDrift

namespace DriftReport

variable (r : DriftReport) (k : Check)

/-! ## The text -/

/-- The text of a report ends with its verdict. -/
theorem renderText_eq_append_verdict :
    ∃ before, r.renderText k = before ++ (r.verdictLine k ++ "\n") := by
  refine ⟨String.join ((r.headLines k ++ k.comparisons.flatMap r.sectionLines).map (· ++ "\n")), ?_⟩
  rw [renderText, textLines, List.map_append, String.join, String.join, List.foldl_append]
  rfl

/-- A verdict that fails does not end like one that passes. -/
theorem failLine_ne_pass (a b : String) (n : Nat) :
    a ++ ("Result: FAIL (" ++ toString n ++ " issue(s))" ++ "\n") ≠ b ++ "Result: PASS\n" := by
  intro h
  have hrev := congrArg (fun s : String => s.toList.reverse) h
  simp at hrev

/-- The text of a report ends with its passing exactly if no issue counts against the check. -/
theorem renderText_endsWith_pass_iff :
    (∃ before, r.renderText k = before ++ "Result: PASS\n") ↔ r.failingIssues k = 0 := by
  obtain ⟨a, ha⟩ := r.renderText_eq_append_verdict k
  rw [ha, verdictLine]
  by_cases h : r.failingIssues k = 0
  · rw [(status_eq_clean_iff r k).2 h]
    exact ⟨fun _ => h, fun _ => ⟨a, rfl⟩⟩
  · have hs : r.status k = .driftFound := by rw [status, if_neg h]
    rw [hs]
    refine iff_of_false ?_ h
    rintro ⟨b, hb⟩
    exact failLine_ne_pass a b _ hb

/-! ## The JSON text -/

/-- The JSON value of a column of a module is plain. -/
theorem plain_moduleColumn (m : ModuleColumn) : m.toJson.Plain :=
  .object <| by simp [Json.Plain.string]

/-- The JSON value of the drift of a table is plain. -/
theorem plain_tableDrift (d : TableDrift) : d.toJson.Plain := by
  refine .object fun m hm => ?_
  have hrel : (Json.array (d.undeclaredRelations.toList.map ModuleColumn.toJson)).Plain :=
    .array (List.forall_mem_map.2 fun m _ => plain_moduleColumn m)
  simp only [List.mem_cons, List.not_mem_nil, or_false] at hm
  rcases hm with rfl | rfl | rfl | rfl
  · exact Json.plain_strings _
  · exact Json.plain_strings _
  · exact Json.plain_strings _
  · exact hrel

/-- The members of the JSON value of a report are plain. -/
theorem plain_members : ∀ m ∈ r.members, m.2.Plain := by
  intro m hm
  simp only [members, List.mem_cons, List.not_mem_nil, or_false] at hm
  rcases hm with rfl | rfl | rfl | rfl | rfl
  · exact .object (List.forall_mem_map.2 fun e _ => plain_tableDrift e.2)
  · exact .array (List.forall_mem_map.2 fun fk _ => fk.plain_toJson)
  · exact .nat _
  · exact .string _
  · exact .string _

/-- The JSON value of a summary is plain. -/
theorem plain_summaryMember (c : Comparison) : (r.summaryMember c).2.Plain :=
  .object <| by simp [Json.Plain.nat]

/-- The JSON value of a report is plain. -/
theorem plain_presented : (r.presented k).Plain := by
  refine .object fun m hm => ?_
  rcases List.mem_append.1 hm with hm | hm
  · simp only [List.mem_cons, List.not_mem_nil, or_false] at hm
    rcases hm with rfl | rfl | rfl | rfl
    · exact .string _
    · exact .bool _
    · exact .nat _
    · exact .object (List.forall_mem_map.2 fun c _ => r.plain_summaryMember c)
  · exact r.plain_members m hm

/-- The JSON text of a report is read back as what a run presents. -/
theorem ofText?_renderJson : Json.ofText? (r.renderJson k) = some (r.presented k) :=
  Json.ofText?_pretty (r.plain_presented k)

/-- The member for passing holds whether no issue counts against the check. -/
theorem member?_passed_presented :
    (r.presented k).member? "passed" = some (.bool (r.failingIssues k == 0)) := by
  simp [presented, members, Json.member?]

/-- The JSON text of a report says that it passed exactly if no issue counts against the check. -/
theorem passed_renderJson_iff :
    (Json.ofText? (r.renderJson k)).bind (Json.member? "passed") = some (.bool true) ↔
      r.failingIssues k = 0 := by
  rw [ofText?_renderJson, Option.bind_some, member?_passed_presented]
  simp

/-! ## Discarded comparisons -/

/-- Discarding findings makes every table clean on the comparison, and none less clean on any. -/
theorem isClean_of_mem_values_discard {c c' : Comparison}
    (h : c' = c ∨ ∀ d ∈ r.tables.values, d.isClean c) :
    ∀ d ∈ (r.discard c').tables.values, d.isClean c := by
  intro d hd
  obtain ⟨t, ht⟩ := SortedMap.mem_values.1 hd
  rw [discard, SortedMap.get?_mapValues] at ht
  obtain ⟨d₀, hd₀, rfl⟩ := Option.map_eq_some_iff.1 ht
  rw [TableDrift.isClean_discard]
  exact h.imp id fun hall => hall d₀ (SortedMap.mem_values.2 ⟨t, hd₀⟩)

/-- Every table is clean in a comparison that is discarded, or in which every table was clean
before. -/
theorem isClean_of_mem_values_foldl_discard {c : Comparison} (cs : List Comparison)
    (h : c ∈ cs ∨ ∀ d ∈ r.tables.values, d.isClean c) :
    ∀ d ∈ (cs.foldl discard r).tables.values, d.isClean c := by
  induction cs generalizing r with
  | nil => exact h.elim nofun id
  | cons c' cs ih =>
    refine ih (r.discard c') ?_
    rcases h with hmem | hall
    · rcases List.mem_cons.1 hmem with rfl | hmem
      · exact .inr (r.isClean_of_mem_values_discard (.inl rfl))
      · exact .inl hmem
    · exact .inr (r.isClean_of_mem_values_discard (.inr hall))

/-- After a run, every table is clean on the comparisons that its check does not select. -/
theorem isClean_of_mem_values_checkedReport (f : TableFilter) {c : Comparison}
    (hc : c ∉ k.comparisons) : ∀ d ∈ (checkedReport k f r).tables.values, d.isClean c := by
  have hmem : c ∈ Comparison.all.filter (!k.includes ·) := by
    refine List.mem_filter.2 ⟨by cases c <;> decide, ?_⟩
    simpa [Check.includes] using hc
  have hsel := r.isClean_of_mem_values_foldl_discard _ (.inl hmem)
  simp only [checkedReport]
  split
  · exact hsel
  · intro d hd
    obtain ⟨t, ht⟩ := SortedMap.mem_values.1 hd
    rw [retainTables, retain, SortedMap.get?_filterKeys] at ht
    split at ht
    · exact hsel d (SortedMap.mem_values.2 ⟨t, ht⟩)
    · cases ht

/-- After a run, the verdict that ignores the check is the verdict on the check. -/
theorem passed_checkedReport (f : TableFilter) :
    (checkedReport k f r).passed = decide ((checkedReport k f r).status k = .clean) := by
  rw [Bool.eq_iff_iff, decide_eq_true_iff, passed_iff, status_eq_clean_iff,
    failingIssues_eq_zero_iff]
  refine ⟨fun h c _ => h c, fun h c hadv => ?_⟩
  by_cases hc : c ∈ k.comparisons
  · exact h c hc hadv
  · exact r.isClean_of_mem_values_checkedReport k f hc

end DriftReport

/-! ## Runs -/

/-- A run passes exactly if its report does. -/
theorem passed_report_of_verify {t : Files.FileTree} {o : Options} {v : Verification}
    (h : verify t o = .ok v) : v.report.passed = v.passed := by
  obtain ⟨f, m, ty, mo, _, _, _, _, rfl⟩ := verify_eq_ok_iff.1 h
  exact DriftReport.passed_checkedReport _ o.check f

/-- **The verdicts agree.** For every report and check, the exit status is clean exactly if there
are no failing issues, exactly if no selected comparison that is more than advice has a dirty table,
exactly if the text ends with the line that says so, and exactly if the JSON text, read back, says
so. Clean and dirty tables make up all tables; a comparison has no fewer findings than dirty tables,
and none of the one exactly if none of the other. After a run, the verdict that ignores the check is
the verdict of the run. -/
theorem verdicts_agree :
    (∀ (r : DriftReport) (k : Check),
      (r.status k = .clean ↔ r.failingIssues k = 0) ∧
      (r.failingIssues k = 0 ↔
        ∀ c ∈ k.comparisons, ¬ c.isAdvisory → (r.summary c).dirty = 0) ∧
      (r.failingIssues k = 0 ↔ ∃ before, r.renderText k = before ++ "Result: PASS\n") ∧
      (r.failingIssues k = 0 ↔
        (Json.ofText? (r.renderJson k)).bind (Json.member? "passed") = some (.bool true)) ∧
      ∀ c, (r.summary c).clean + (r.summary c).dirty = (r.summary c).total ∧
        (r.summary c).dirty ≤ r.issueCount c ∧
        ((r.summary c).dirty = 0 ↔ r.issueCount c = 0)) ∧
    ∀ (t : Files.FileTree) (o : Options) (v : Verification),
      verify t o = .ok v → v.report.passed = v.passed := by
  refine ⟨fun r k => ⟨r.status_eq_clean_iff k, ?_, (r.renderText_endsWith_pass_iff k).symm,
    (r.passed_renderJson_iff k).symm, fun c => ⟨r.summary_clean_add_dirty c,
      r.summary_dirty_le_issueCount c, ?_⟩⟩, fun t o v => passed_report_of_verify⟩
  · rw [r.failingIssues_eq_zero_iff k]
    simp only [r.summary_dirty_eq_zero_iff]
  · rw [r.summary_dirty_eq_zero_iff, r.issueCount_eq_zero_iff]

/-- A project whose type file lacks a column of its schema. -/
def driftingProject : Files.FileTree :=
  (({} : Files.FileTree).addFile "m/1.sql" (Text.utf8 "CREATE TABLE a (b c);".toList)).addFile
    "t.ts" []

/-- A report of a column that is in use though the schema lacks it. -/
def phantomReport : DriftReport :=
  ⟨.ofList [("a", { phantomBackend := .ofList ["b"] })], [], 0, "", ""⟩

/-- A run on that project fails on both verdicts. That report passes the check that compares the
schema with the types, and has no dirty table there. -/
theorem driftingProject_fails :
    (∃ v, verify driftingProject { migrationsDir := "m", typesFile := "t.ts", check := .sync } =
        .ok v ∧
      v.passed = false ∧ v.report.passed = v.passed) ∧
    phantomReport.failingIssues .sync = 0 ∧ (phantomReport.summary .sync).dirty = 0 := by
  constructor
  · have hrun : (match verify driftingProject
          { migrationsDir := "m", typesFile := "t.ts", check := .sync } with
        | .ok v => v.passed
        | .error _ => true) = false := by decide +kernel
    cases h : verify driftingProject
        { migrationsDir := "m", typesFile := "t.ts", check := .sync } with
    | error e => rw [h] at hrun; cases hrun
    | ok v =>
      rw [h] at hrun
      exact ⟨v, rfl, hrun, verdicts_agree.2 _ _ v h⟩
  · have hissues : phantomReport.failingIssues .sync = 0 := by decide
    exact ⟨hissues,
      (verdicts_agree.1 phantomReport .sync).2.1.1 hissues .sync (by decide) (by decide)⟩

end SchemaDrift
