import SchemaDrift.Proofs.Drift.Verdict

/-!
# The JSON report read back

The text of a presented report, read back, holds the whole report (`ofJson?_presented`): the members
that a run puts in front of the report's own are ignored where the report is read, and no two of all
the members have the same name (`nodup_presented`). The members in front state the check, the
verdict and one summary for each selected comparison.
-/

namespace SchemaDrift

open Json (asText? asCount? asTextSet? asList? asMap? asRecord?)

/-- A column of a module is read back from its JSON value. -/
theorem ModuleColumn.ofJson?_toJson (m : ModuleColumn) : ofJson? m.toJson = some m := by
  simp [ofJson?, toJson, asRecord?, Json.member?, asText?]

/-- The drift of a table is read back from its JSON value. -/
theorem TableDrift.ofJson?_toJson (d : TableDrift) : ofJson? d.toJson = some d := by
  have hrelations : asList? ModuleColumn.ofJson?
      (.array (d.undeclaredRelations.toList.map ModuleColumn.toJson)) =
        some d.undeclaredRelations.toList :=
    Json.asList?_array ModuleColumn.ofJson?_toJson _
  simp [ofJson?, toJson, asRecord?, Json.member?, Json.asTextSet?_strings, hrelations,
    SortedSet.ofList_toList]

/-- A check is known by its name. -/
theorem Check.ofName?_name (k : Check) : ofName? k.name = some k := by
  cases k <;> rfl

/-- The summary that an object states. -/
def Summary.ofJson? (v : Json) : Option Summary :=
  match asRecord? ["total", "clean", "dirty"] v with
  | some [some (.nat total), some (.nat clean), some (.nat dirty)] => some ⟨total, clean, dirty⟩
  | _ => none

namespace DriftReport

variable (r : DriftReport) (k : Check)

/-- The names of the members of a report as a run presents it. -/
def presentedNames : List String :=
  ["check", "passed", "issues", "summaries", "tables", "foreign_keys", "relation_candidates",
    "schema_fingerprint", "types_fingerprint"]

/-- No member of a report has the name of a member that a run puts in front of it. -/
theorem nodup_presented :
    ∃ ms, r.presented k = .object ms ∧ ms.map (·.1) = presentedNames ∧ (ms.map (·.1)).Nodup := by
  refine ⟨_, rfl, rfl, ?_⟩
  show presentedNames.Nodup
  decide

/-- A report is read back from its JSON value, if its number of candidates fits in 64 bits. -/
theorem ofJson?_presented (h : r.relationCandidates < 2 ^ 64) :
    ofJson? (r.presented k) = some r := by
  have hcount : asCount? (.nat r.relationCandidates) = some r.relationCandidates := if_pos h
  simp [ofJson?, presented, members, asRecord?, Json.member?, hcount, asText?,
    Json.asMap?_object TableDrift.ofJson?_toJson, Json.asList?_array ForeignKey.ofJson?_toJson]

/-- A summary is read back from its JSON value. -/
theorem ofJson?_summaryMember (c : Comparison) :
    Summary.ofJson? (r.summaryMember c).2 = some (r.summary c) := by
  simp [Summary.ofJson?, summaryMember, asRecord?, Json.member?]

/-- The summaries are those of the selected comparisons, each under its name. -/
theorem summaries_presented :
    ∃ ms, (r.presented k).member? "summaries" = some (.object ms) ∧ (ms.map (·.1)).Nodup ∧
      List.Forall₂ (fun c m => m.1 = c.name ∧ Summary.ofJson? m.2 = some (r.summary c))
        k.comparisons ms := by
  have hnames : (k.comparisons.map r.summaryMember).map (·.1) = k.comparisons.map Comparison.name :=
    List.map_map
  refine ⟨k.comparisons.map r.summaryMember, by simp [presented, members, Json.member?], ?_, ?_⟩
  · rw [hnames]
    cases k <;> decide
  · rw [List.forall₂_map_right_iff, List.forall₂_same]
    exact fun c _ => ⟨rfl, r.ofJson?_summaryMember c⟩

/-- **The JSON report loses nothing.** Its text is a JSON object without repeated names that reads
back as the report. The object states the check, the number of failing issues, whether there are
none, and for each selected comparison, and no other, its summary. The number of relation candidates
must fit in sixty-four bits. -/
theorem renderJson_lossless (h : r.relationCandidates < 2 ^ 64) :
    ∃ v, Json.ofText? (r.renderJson k) = some v ∧
      (∃ ms, v = .object ms ∧ ms.map (·.1) = presentedNames ∧ (ms.map (·.1)).Nodup) ∧
      ofJson? v = some r ∧
      ((v.member? "check").bind asText?).bind Check.ofName? = some k ∧
      v.member? "issues" = some (.nat (r.failingIssues k)) ∧
      v.member? "passed" = some (.bool (r.failingIssues k = 0)) ∧
      ∃ ms, v.member? "summaries" = some (.object ms) ∧ (ms.map (·.1)).Nodup ∧
        List.Forall₂ (fun c m => m.1 = c.name ∧ Summary.ofJson? m.2 = some (r.summary c))
          k.comparisons ms := by
  have hcheck : (r.presented k).member? "check" = some (.string k.name) := by
    simp [presented, members, Json.member?]
  refine ⟨r.presented k, r.ofText?_renderJson k, r.nodup_presented k, r.ofJson?_presented k h, ?_,
    ?_, r.member?_passed_presented k, r.summaries_presented k⟩
  · rw [hcheck, Option.bind_some, asText?, Option.bind_some, Check.ofName?_name]
  · simp [presented, members, Json.member?]

end DriftReport

/-- A report whose names are made of the characters of JSON texts. -/
def quotingReport : DriftReport :=
  ⟨.ofList [("check", { phantomBackend := .ofList ["a\\", "\"b\"", "\n\x01"] }),
    ("\"tables\": \x7b", { undeclaredRelations := .ofList [⟨"", "]_id"⟩, ⟨",", "\x7d_id"⟩] })],
    [⟨"passed", "\\\"", "", "é"⟩], 18446744073709551615, "", "null"⟩

/-- A report with quotes and backslashes in its names is read back from its text. -/
theorem quotingReport_lossless :
    quotingReport.relationCandidates < 2 ^ 64 ∧
    ∃ v, Json.ofText? (quotingReport.renderJson .all) = some v ∧
      DriftReport.ofJson? v = some quotingReport ∧
      v.member? "issues" = some (.nat (quotingReport.failingIssues .all)) := by
  have hbound : quotingReport.relationCandidates < 2 ^ 64 := by decide
  obtain ⟨v, htext, _, hreport, _, hissues, _⟩ := quotingReport.renderJson_lossless .all hbound
  exact ⟨hbound, v, htext, hreport, hissues⟩

end SchemaDrift
