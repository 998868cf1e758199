import SchemaDrift.Proofs.Drift.Grouping
import SchemaDrift.Proofs.Text.Runs

/-!
# The lines of a text report

The text of a report consists of lines. If no name in the report holds the end of a line
(`DriftReport.SingleLined`), each of them is one line (`SingleLined.textLines`), and so the lines
are determined by the text (`eq_of_join_lines`).
-/

namespace SchemaDrift

open SchemaDrift.Text (append_inj_of_stop)

/-! ## Lines -/

/-- A text that holds no end of a line. -/
def OneLine (s : String) : Prop :=
  '\n' ∉ s.toList

instance (s : String) : Decidable (OneLine s) :=
  inferInstanceAs (Decidable (¬ _))

/-- A text that is put together is one line if its parts are. -/
@[simp] theorem oneLine_append {s t : String} : OneLine (s ++ t) ↔ OneLine s ∧ OneLine t := by
  simp [OneLine]

/-- The digits of a number are one line. -/
@[simp] theorem oneLine_repr (n : Nat) : OneLine n.repr := by
  intro h
  rw [Nat.toList_repr] at h
  exact absurd (Nat.isDigit_of_mem_toDigits (by decide) (by decide) h) (by decide)

/-- A percentage is one line. -/
@[simp] theorem oneLine_oneDecimal (x : Float) : OneLine (Number.oneDecimal x) := by
  simp +decide [Number.oneDecimal, Number.showTenths]

/-- Lines are determined by the text that they make up. -/
theorem eq_of_join_lines {ls ls' : List String} (hls : ∀ l ∈ ls, OneLine l)
    (hls' : ∀ l ∈ ls', OneLine l)
    (h : String.join (ls.map (· ++ "\n")) = String.join (ls'.map (· ++ "\n"))) : ls = ls' := by
  have hchars : ∀ l : String, OneLine l → ∀ c ∈ l.toList, (c != '\n') = true := by
    intro l hl c hc
    rw [bne_iff_ne]
    rintro rfl
    exact hl hc
  induction ls generalizing ls' with
  | nil =>
    cases ls' with
    | nil => rfl
    | cons l' ls' => simp at h
  | cons l ls ih =>
    cases ls' with
    | nil => simp at h
    | cons l' ls' =>
      rw [List.forall_mem_cons] at hls hls'
      have htext : l.toList ++ '\n' :: (String.join (ls.map (· ++ "\n"))).toList =
          l'.toList ++ '\n' :: (String.join (ls'.map (· ++ "\n"))).toList := by
        simpa using congrArg String.toList h
      obtain ⟨hl, hrest⟩ := append_inj_of_stop (hchars l hls.1) (by simp) (hchars l' hls'.1)
        (by simp) htext
      rw [String.toList_inj.1 hl, ih hls.2 hls'.2 (String.toList_inj.1 (List.cons.inj hrest).2)]

/-! ## Every line of a report -/

/-- What is grouped under a table are foreign keys that start there. -/
theorem of_mem_groupForeignKeys {keys : List ForeignKey} {e : String × List ForeignKey}
    (h : e ∈ (groupForeignKeys keys).entries) :
    (∃ fk ∈ keys, fk.sourceTable = e.1) ∧ ∀ fk ∈ e.2, fk ∈ keys := by
  have hgroups := isGrouping_groupForeignKeys keys
  have hmem : ∀ fk ∈ e.2, fk ∈ keys ∧ fk.sourceTable = e.1 := by
    intro fk hfk
    have hown := (hgroups.own e h).mem_iff.1 hfk
    simpa [startingAt] using hown
  obtain ⟨fk, hfk⟩ := List.exists_mem_of_ne_nil _ (hgroups.nonempty e h)
  exact ⟨⟨fk, hmem fk hfk⟩, fun fk hfk => (hmem fk hfk).1⟩

namespace DriftReport

/-- A report in which no name and no fingerprint holds the end of a line. -/
structure SingleLined (r : DriftReport) : Prop where
  fingerprints : OneLine r.schemaFingerprint ∧ OneLine r.typesFingerprint
  foreignKeys : ∀ fk ∈ r.foreignKeys, OneLine fk.sourceTable ∧ OneLine fk.sourceColumn ∧
    OneLine fk.targetTable ∧ OneLine fk.targetColumn
  tables : ∀ e ∈ r.tables.entries, OneLine e.1
  columns : ∀ e ∈ r.tables.entries, ∀ s ∈ e.2.phantomBackend.toList ++
    (e.2.missingInTypes.toList ++ e.2.missingInSql.toList), OneLine s
  relations : ∀ e ∈ r.tables.entries, ∀ m ∈ e.2.undeclaredRelations.toList,
    OneLine m.module ∧ OneLine m.column

instance (r : DriftReport) : Decidable r.SingleLined :=
  decidable_of_iff (_ ∧ _ ∧ _ ∧ _ ∧ _)
    ⟨fun h => ⟨h.1, h.2.1, h.2.2.1, h.2.2.2.1, h.2.2.2.2⟩,
      fun h => ⟨h.fingerprints, h.foreignKeys, h.tables, h.columns, h.relations⟩⟩

variable {heading label clean dirty : String} {ls : List String} {columns : SortedSet String}

/-- A block is made of single lines if its heading is one and its content is made of them. -/
theorem oneLine_block (hheading : OneLine heading) (h : ∀ l ∈ ls, OneLine l) :
    ∀ l ∈ block heading ls, OneLine l := by
  rw [block]
  split
  · exact List.forall_mem_nil _
  · exact List.forall_mem_append.2 ⟨List.forall_mem_cons.2 ⟨hheading, h⟩,
      List.forall_mem_singleton.2 (by decide)⟩

/-- A list of columns is shown on one line. -/
theorem oneLine_columnLines (hlabel : OneLine label) (h : ∀ s ∈ columns.toList, OneLine s) :
    ∀ l ∈ columnLines label columns, OneLine l := by
  rw [columnLines]
  split
  · exact List.forall_mem_nil _
  · refine List.forall_mem_cons.2 ⟨?_, List.forall_mem_map.2 fun s hs => ?_⟩
    · simp +decide [hlabel]
    · simp +decide [h s hs]

/-- The summary of a comparison is made of single lines. -/
theorem oneLine_summaryLines (r : DriftReport) (c : Comparison) (hclean : OneLine clean)
    (hdirty : OneLine dirty) : ∀ l ∈ r.summaryLines c clean dirty, OneLine l := by
  simp +decide [summaryLines, hclean, hdirty]

namespace SingleLined

variable {r : DriftReport}

/-- The list of clean tables is made of single lines. -/
theorem cleanLines (h : r.SingleLined) (c : Comparison) : ∀ l ∈ r.cleanLines c, OneLine l := by
  refine oneLine_block (by decide) (List.forall_mem_map.2 fun t ht => ?_)
  obtain ⟨e, he, rfl⟩ := List.mem_map.1 ht
  simp +decide [h.tables e (List.mem_filter.1 he).1]

/-- The line that begins a table is one line. -/
theorem tableLine (h : r.SingleLined) {e : String × TableDrift} (he : e ∈ r.tables.entries) :
    OneLine ("  Table: " ++ e.1) := by
  simp +decide [h.tables e he]

/-- The section on synchronization is made of single lines. -/
theorem syncLines (h : r.SingleLined) : ∀ l ∈ r.syncLines, OneLine l := by
  refine List.forall_mem_append.2 ⟨List.forall_mem_append.2
    ⟨r.oneLine_summaryLines .sync (by decide) (by decide), h.cleanLines .sync⟩,
    oneLine_block (by decide) (List.forall_mem_flatMap.2 fun e he => ?_)⟩
  have he := (List.mem_filter.1 he).1
  have hcolumns := h.columns e he
  simp only [List.forall_mem_append] at hcolumns
  exact List.forall_mem_append.2 ⟨List.forall_mem_cons.2 ⟨h.tableLine he,
    oneLine_columnLines (by decide) hcolumns.2.1⟩, oneLine_columnLines (by decide) hcolumns.2.2⟩

/-- The section on usage is made of single lines. -/
theorem usageLines (h : r.SingleLined) : ∀ l ∈ r.usageLines, OneLine l := by
  refine List.forall_mem_append.2 ⟨List.forall_mem_append.2
    ⟨r.oneLine_summaryLines .usage (by decide) (by decide), h.cleanLines .usage⟩,
    oneLine_block (by decide) (List.forall_mem_flatMap.2 fun e he => ?_)⟩
  have he := (List.mem_filter.1 he).1
  have hcolumns := h.columns e he
  simp only [List.forall_mem_append] at hcolumns
  exact List.forall_mem_cons.2 ⟨h.tableLine he, oneLine_columnLines (by decide) hcolumns.1⟩

/-- The foreign keys of a table are shown on one line each. -/
theorem foreignKeyLines (h : r.SingleLined) {e : String × List ForeignKey}
    (he : e ∈ (groupForeignKeys r.foreignKeys).entries) :
    ∀ l ∈ ("  Table: " ++ e.1) :: e.2.map foreignKeyLine, OneLine l := by
  obtain ⟨⟨fk, hfk, htable⟩, hgroup⟩ := of_mem_groupForeignKeys he
  refine List.forall_mem_cons.2 ⟨?_, List.forall_mem_map.2 fun fk hfk => ?_⟩
  · have htable : OneLine e.1 := htable ▸ (h.foreignKeys fk hfk).1
    simp +decide [htable]
  · obtain ⟨-, hcolumn, htarget, hreferred⟩ := h.foreignKeys fk (hgroup fk hfk)
    simp +decide [foreignKeyLine, hcolumn, htarget, hreferred]

/-- An undeclared relation is shown on one line. -/
theorem undeclaredLine (h : r.SingleLined) {e : String × TableDrift} (he : e ∈ r.tables.entries)
    {m : ModuleColumn} (hm : m ∈ e.2.undeclaredRelations.toList) :
    OneLine (undeclaredLine e.1 m) := by
  obtain ⟨hmodule, hcolumn⟩ := h.relations e he m hm
  simp +decide [DriftReport.undeclaredLine, h.tables e he, hmodule, hcolumn]

/-- The section on relations is made of single lines. -/
theorem relationLines (h : r.SingleLined) : ∀ l ∈ r.relationLines, OneLine l := by
  refine List.forall_mem_append.2 ⟨List.forall_mem_append.2 ⟨List.forall_mem_append.2
    ⟨r.oneLine_summaryLines .relations (by decide) (by decide), ?_⟩, ?_⟩, ?_⟩
  · simp +decide
  · exact oneLine_block (by decide) (List.forall_mem_flatMap.2 fun e he => h.foreignKeyLines he)
  · exact oneLine_block (by decide) (List.forall_mem_flatMap.2 fun e he =>
      List.forall_mem_map.2 fun m hm => h.undeclaredLine (List.mem_filter.1 he).1 hm)

/-- Every section is made of single lines. -/
theorem sectionLines (h : r.SingleLined) (c : Comparison) : ∀ l ∈ r.sectionLines c, OneLine l := by
  have hbody : ∀ ls, (∀ l ∈ ls, OneLine l) →
      ∀ l ∈ ("== " ++ c.title ++ " ==") :: ls, OneLine l := by
    intro ls hls
    refine List.forall_mem_cons.2 ⟨?_, hls⟩
    cases c <;> decide
  have hscore : ∀ l ∈ [c.scoreLabel ++ ": " ++ Number.oneDecimal (r.summary c).score ++ "%", ""],
      OneLine l := by
    cases c <;> simp +decide
  cases c with
  | sync => exact List.forall_mem_append.2 ⟨hbody _ h.syncLines, hscore⟩
  | usage => exact List.forall_mem_append.2 ⟨hbody _ h.usageLines, hscore⟩
  | relations => exact List.forall_mem_append.2 ⟨hbody _ h.relationLines, List.forall_mem_nil _⟩

/-- Everything before the result of a report is made of single lines. -/
theorem headLines (h : r.SingleLined) (k : Check) : ∀ l ∈ r.headLines k, OneLine l := by
  have hname : OneLine k.name := by cases k <;> decide
  refine List.forall_mem_append.2 ⟨List.forall_mem_append.2 ⟨?_, ?_⟩,
    List.forall_mem_singleton.2 (by decide)⟩
  · simp +decide [hname, h.fingerprints.1]
  · split
    · simp +decide [h.fingerprints.2]
    · exact List.forall_mem_nil _

/-- What is shown as one line is one. -/
theorem textLines (h : r.SingleLined) (k : Check) : ∀ l ∈ r.textLines k, OneLine l := by
  refine List.forall_mem_append.2 ⟨List.forall_mem_append.2 ⟨h.headLines k,
    List.forall_mem_flatMap.2 fun c _ => h.sectionLines c⟩, List.forall_mem_singleton.2 ?_⟩
  rw [verdictLine]
  split
  · decide
  · simp +decide

end SingleLined

end DriftReport

end SchemaDrift
