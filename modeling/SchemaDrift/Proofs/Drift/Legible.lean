import SchemaDrift.Proofs.Drift.Difference
import SchemaDrift.Proofs.Drift.Lines

/-!
# The drift read off a text report

The lines of a report are told apart by how far they are indented, whatever names they show:
headings not at all, tables by two spaces, labels by four and columns by six. So the lines under a
heading, the lines on a table and the columns under a label end where they seem to end
(`headed_append_inj`, `forall₂_of_groups`), and the findings on columns can be had back from the
text (`renderText_determines_drift`). The names in the lines on relations are not delimited, and two
reports that differ in them may have one text (`renderText_imitatingReport`).
-/

namespace SchemaDrift

open SchemaDrift.Text (append_inj_of_stop)

/-- How many spaces a line begins with. -/
def indent (l : String) : Nat :=
  (l.toList.takeWhile (· == ' ')).length

/-! ## Headings -/

/-- Lines under a heading, which stands only if there are any, are determined together with what
follows: the lines are of a class that stops behind them, and what follows does not begin with the
heading. -/
theorem headed_append_inj (close : List String) {heading : String} {ls ls' rest rest' : List String}
    {p : String → Bool} (hls : ∀ l ∈ ls, p l) (hls' : ∀ l ∈ ls', p l)
    (hstop : ∀ l ∈ (close ++ rest).head?, p l = false)
    (hstop' : ∀ l ∈ (close ++ rest').head?, p l = false)
    (hrest : heading ∉ rest.head?) (hrest' : heading ∉ rest'.head?)
    (h : (if ls.isEmpty then [] else heading :: ls ++ close) ++ rest =
      (if ls'.isEmpty then [] else heading :: ls' ++ close) ++ rest') :
    ls = ls' ∧ rest = rest' := by
  cases ls with
  | nil =>
    cases ls' with
    | nil => exact ⟨rfl, h⟩
    | cons l' ls' =>
      replace h : rest = heading :: _ := h
      exact absurd (h ▸ rfl) hrest
  | cons l ls =>
    cases ls' with
    | nil =>
      replace h : heading :: _ = rest' := h
      exact absurd (h ▸ rfl) hrest'
    | cons l' ls' =>
      have hlines : (l :: ls) ++ (close ++ rest) = (l' :: ls') ++ (close ++ rest') := by
        simpa using h
      obtain ⟨hl, hclose⟩ := append_inj_of_stop hls hstop hls' hstop' hlines
      exact ⟨hl, List.append_cancel_left hclose⟩

/-- Groups of lines, each under a title that is told from the other lines, are determined by all
the lines. -/
theorem forall₂_of_groups {α : Type} {title : α → String} {body : α → List String}
    {p : String → Bool} (htitle : ∀ e, p (title e) = false) (hbody : ∀ e, ∀ l ∈ body e, p l)
    {es es' : List α} (h : es.flatMap (fun e => title e :: body e) =
      es'.flatMap fun e => title e :: body e) :
    List.Forall₂ (fun e e' => title e = title e' ∧ body e = body e') es es' := by
  have hstop : ∀ es : List α, ∀ l ∈ (es.flatMap fun e => title e :: body e).head?, p l = false := by
    intro es l hl
    cases es with
    | nil => cases hl
    | cons e es =>
      obtain rfl := Option.some.inj hl
      exact htitle e
  induction es generalizing es' with
  | nil =>
    cases es' with
    | nil => exact .nil
    | cons e' es' => cases h
  | cons e es ih =>
    cases es' with
    | nil => cases h
    | cons e' es' =>
      obtain ⟨htitles, hlines⟩ := List.cons.inj h
      obtain ⟨hbodies, hrest⟩ :=
        append_inj_of_stop (hbody e) (hstop es) (hbody e') (hstop es') hlines
      exact .cons ⟨htitles, hbodies⟩ (ih hrest)

/-- The columns that a comparison found for a table, by label. -/
def TableDrift.columnFindings (d : TableDrift) : Comparison → List (SortedSet String)
  | .sync => [d.missingInTypes, d.missingInSql]
  | .usage => [d.phantomBackend]
  | .relations => []

namespace DriftReport

/-! ## What the lines show -/

section Shown

variable {r r' : DriftReport} {c : Comparison} {heading : String} {rest rest' : List String}

/-- A section with a score shows the clean tables of a comparison and what was found for the others,
and ends behind its score. -/
theorem section_append_inj {title title' clean dirty score score' : String}
    {found found' : List String} (hheading : heading ≠ "Clean tables:") (hfound : "" ∉ found)
    (hfound' : "" ∉ found') (hscore : score ≠ "Clean tables:" ∧ score ≠ heading)
    (hscore' : score' ≠ "Clean tables:" ∧ score' ≠ heading)
    (h : title :: (r.summaryLines c clean dirty ++ r.cleanLines c ++ block heading found) ++
        [score, ""] ++ rest =
      title' :: (r'.summaryLines c clean dirty ++ r'.cleanLines c ++ block heading found') ++
        [score', ""] ++ rest') :
    r.cleanTables c = r'.cleanTables c ∧ found = found' ∧ rest = rest' := by
  have hlines : block "Clean tables:" ((r.cleanTables c).map ("  ✓ " ++ ·)) ++
        (block heading found ++ score :: "" :: rest) =
      block "Clean tables:" ((r'.cleanTables c).map ("  ✓ " ++ ·)) ++
        (block heading found' ++ score' :: "" :: rest') := by
    simp only [summaryLines, cleanLines, List.cons_append, List.nil_append, List.append_assoc,
      List.cons.injEq] at h
    exact h.2.2.2.2.2
  have hstop : ∀ {rest : List String}, ∀ l ∈ ([""] ++ rest).head?, (l != "") = false := by simp
  have hnext : ∀ {found rest : List String} {score : String}, score ≠ "Clean tables:" →
      "Clean tables:" ∉ (block heading found ++ score :: "" :: rest).head? := by
    intro found rest score hscore hmem
    rw [block] at hmem
    split at hmem
    · exact hscore (Option.some.inj hmem)
    · exact hheading (Option.some.inj hmem)
  have hmarked : ∀ ts : List String, ∀ l ∈ ts.map ("  ✓ " ++ ·), (l != "") = true := by
    intro ts l hl
    obtain ⟨t, -, rfl⟩ := List.mem_map.1 hl
    simp
  have hnonempty : ∀ {ls : List String}, "" ∉ ls → ∀ l ∈ ls, (l != "") = true := by
    intro ls hls l hl
    rw [bne_iff_ne]
    rintro rfl
    exact hls hl
  obtain ⟨htables, hlines⟩ := headed_append_inj [""] (hmarked _) (hmarked _) hstop hstop
    (hnext hscore.1) (hnext hscore'.1) hlines
  obtain ⟨hfindings, hlines⟩ := headed_append_inj [""] (hnonempty hfound) (hnonempty hfound') hstop
    hstop (fun hmem => hscore.2 (Option.some.inj hmem))
    (fun hmem => hscore'.2 (Option.some.inj hmem)) hlines
  have hinj : Function.Injective fun t : String => "  ✓ " ++ t := fun s t hst => by simpa using hst
  exact ⟨hinj.list_map htables, hfindings, (List.cons.inj (List.cons.inj hlines).2).2⟩

/-- The columns under a label are shown whole, if what follows begins with no column and not with
the label. -/
theorem columnLines_append_inj {label : String} {columns columns' : SortedSet String}
    (hrest : ∀ l ∈ rest.head?, indent l ≠ 6 ∧ l ≠ "    " ++ label ++ ":")
    (hrest' : ∀ l ∈ rest'.head?, indent l ≠ 6 ∧ l ≠ "    " ++ label ++ ":")
    (h : columnLines label columns ++ rest = columnLines label columns' ++ rest') :
    columns = columns' ∧ rest = rest' := by
  have hcolumn : ∀ columns : List String, ∀ l ∈ columns.map ("      - " ++ ·),
      (indent l == 6) = true := by
    intro columns l hl
    obtain ⟨s, -, rfl⟩ := List.mem_map.1 hl
    simp [indent]
  have hlines : ∀ columns, columnLines label columns =
      if (columns.toList.map ("      - " ++ ·)).isEmpty then []
      else ("    " ++ label ++ ":") :: columns.toList.map ("      - " ++ ·) ++ [] := by
    intro columns
    rw [List.isEmpty_map, List.append_nil]
    rfl
  have hstop : ∀ {rest : List String},
      (∀ l ∈ rest.head?, indent l ≠ 6 ∧ l ≠ "    " ++ label ++ ":") →
      ∀ l ∈ ([] ++ rest).head?, (indent l == 6) = false :=
    fun hrest l hl => beq_false_of_ne (hrest l hl).1
  rw [hlines, hlines] at h
  obtain ⟨hcolumns, hr⟩ := headed_append_inj [] (hcolumn _) (hcolumn _) (hstop hrest) (hstop hrest')
    (fun hmem => (hrest _ hmem).2 rfl) (fun hmem => (hrest' _ hmem).2 rfl) h
  have hinj : Function.Injective fun s : String => "      - " ++ s :=
    fun s t hst => by simpa using hst
  have hlist : columns.toList = columns'.toList := hinj.list_map hcolumns
  exact ⟨SortedSet.ext_mem fun s => by rw [SortedSet.mem_def, SortedSet.mem_def, hlist], hr⟩

/-- The line of a list of columns tells the columns. -/
theorem columnLines_inj {label : String} {columns columns' : SortedSet String}
    (h : columnLines label columns = columnLines label columns') : columns = columns' := by
  rw [← List.append_nil (columnLines label columns),
    ← List.append_nil (columnLines label columns')] at h
  exact (columnLines_append_inj (by simp) (by simp) h).1

/-- Labels and columns are indented by more than a table. -/
theorem indent_of_mem_columnLines {label l : String} {columns : SortedSet String}
    (hlabel : indent ("    " ++ label ++ ":") = 4) (hl : l ∈ columnLines label columns) :
    2 < indent l := by
  rw [columnLines] at hl
  split at hl
  · cases hl
  · rcases List.mem_cons.1 hl with rfl | hl
    · rw [hlabel]
      decide
    · obtain ⟨s, -, rfl⟩ := List.mem_map.1 hl
      simp [indent]

/-- What a comparison of columns shows of two reports is the same: the clean tables, and the other
tables with what was found for each. -/
structure ShownAlike (c : Comparison) (r r' : DriftReport) : Prop where
  clean : r.cleanTables c = r'.cleanTables c
  dirty : List.Forall₂ (fun e e' => e.1 = e'.1 ∧
    e.2.columnFindings c = e'.2.columnFindings c) (r.dirtyTables c) (r'.dirtyTables c)

/-- A section shows what was found for each table, if the lines of a table are indented by more than
its name and show the columns. -/
theorem shownAlike_of_section (body : TableDrift → List String)
    {title title' clean dirty score score' : String} (hbody : ∀ d, ∀ l ∈ body d, 2 < indent l)
    (hshow : ∀ d d', body d = body d' → d.columnFindings c = d'.columnFindings c)
    (hheading : heading ≠ "Clean tables:") (hscore : score ≠ "Clean tables:" ∧ score ≠ heading)
    (hscore' : score' ≠ "Clean tables:" ∧ score' ≠ heading)
    (h : title :: (r.summaryLines c clean dirty ++ r.cleanLines c ++ block heading
        ((r.dirtyTables c).flatMap fun e => ("  Table: " ++ e.1) :: body e.2)) ++
        [score, ""] ++ rest =
      title' :: (r'.summaryLines c clean dirty ++ r'.cleanLines c ++ block heading
        ((r'.dirtyTables c).flatMap fun e => ("  Table: " ++ e.1) :: body e.2)) ++
        [score', ""] ++ rest') :
    ShownAlike c r r' ∧ rest = rest' := by
  have hfound : ∀ r : DriftReport,
      "" ∉ (r.dirtyTables c).flatMap fun e => ("  Table: " ++ e.1) :: body e.2 := by
    intro r hmem
    obtain ⟨e, -, hmem⟩ := List.mem_flatMap.1 hmem
    rcases List.mem_cons.1 hmem with htable | hmem
    · simp at htable
    · exact absurd (hbody e.2 _ hmem) (by decide)
  obtain ⟨hclean, hlines, hrest⟩ :=
    section_append_inj hheading (hfound r) (hfound r') hscore hscore' h
  have hgroups := forall₂_of_groups (p := fun l => decide (2 < indent l))
    (fun e => by simp [indent]) (fun e l hl => decide_eq_true (hbody e.2 l hl)) hlines
  refine ⟨⟨hclean, hgroups.imp fun e e' he => ?_⟩, hrest⟩
  exact ⟨by simpa using he.1, hshow e.2 e'.2 he.2⟩

/-- The lines on a table whose schema and types differ. -/
def syncBody (d : TableDrift) : List String :=
  columnLines "Missing in types" d.missingInTypes ++ columnLines "Missing in SQL" d.missingInSql

/-- The section on synchronization, line by line. -/
theorem sectionLines_sync (r : DriftReport) : r.sectionLines .sync =
    ("== " ++ Comparison.sync.title ++ " ==") ::
      (r.summaryLines .sync "Synchronized" "With drift" ++ r.cleanLines .sync ++
        block "Drift detected:"
          ((r.dirtyTables .sync).flatMap fun e => ("  Table: " ++ e.1) :: syncBody e.2)) ++
      ["Sync score" ++ ": " ++ Number.oneDecimal (r.summary .sync).score ++ "%", ""] :=
  rfl

/-- The section on usage, line by line. -/
theorem sectionLines_usage (r : DriftReport) : r.sectionLines .usage =
    ("== " ++ Comparison.usage.title ++ " ==") ::
      (r.summaryLines .usage "Clean" "With phantom columns" ++ r.cleanLines .usage ++
        block "Phantom columns (used by modules, absent from the schema):"
          ((r.dirtyTables .usage).flatMap fun e =>
            ("  Table: " ++ e.1) :: columnLines "Phantom" e.2.phantomBackend)) ++
      ["Cleanliness score" ++ ": " ++ Number.oneDecimal (r.summary .usage).score ++ "%", ""] :=
  rfl

/-- The body of a table in the section on synchronization tells its findings. -/
theorem columnFindings_eq_of_syncBody {d d' : TableDrift} (h : syncBody d = syncBody d') :
    d.columnFindings .sync = d'.columnFindings .sync := by
  -- The label of the second set ends the first, and nothing stands behind the second.
  have hlabel : ∀ columns, ∀ l ∈ (columnLines "Missing in SQL" columns).head?,
      indent l ≠ 6 ∧ l ≠ "    " ++ "Missing in types" ++ ":" := by
    intro columns l hl
    rw [columnLines] at hl
    split at hl
    · cases hl
    · obtain rfl := Option.some.inj hl
      decide
  obtain ⟨htypes, hsql⟩ := columnLines_append_inj (hlabel _) (hlabel _) h
  rw [TableDrift.columnFindings, TableDrift.columnFindings, htypes, columnLines_inj hsql]

/-- Where the section on synchronization reads the same, so do the findings that it shows, and what
follows it is the same. -/
theorem shownAlike_sync (h : r.sectionLines .sync ++ rest = r'.sectionLines .sync ++ rest') :
    ShownAlike .sync r r' ∧ rest = rest' := by
  have hscore : ∀ shown : String, "Sync score" ++ ": " ++ shown ++ "%" ≠ "Clean tables:" ∧
      "Sync score" ++ ": " ++ shown ++ "%" ≠ "Drift detected:" := by
    simp [← String.toList_inj]
  rw [sectionLines_sync, sectionLines_sync] at h
  refine shownAlike_of_section syncBody (fun d l hl => ?_)
    (fun d d' => columnFindings_eq_of_syncBody) (by decide) (hscore _) (hscore _) h
  rcases List.mem_append.1 hl with hl | hl
  · exact indent_of_mem_columnLines (by decide) hl
  · exact indent_of_mem_columnLines (by decide) hl

/-- Where the section on usage reads the same, so do the findings that it shows, and what follows it
is the same. -/
theorem shownAlike_usage (h : r.sectionLines .usage ++ rest = r'.sectionLines .usage ++ rest') :
    ShownAlike .usage r r' ∧ rest = rest' := by
  have hscore : ∀ shown : String, "Cleanliness score" ++ ": " ++ shown ++ "%" ≠ "Clean tables:" ∧
      "Cleanliness score" ++ ": " ++ shown ++ "%" ≠
        "Phantom columns (used by modules, absent from the schema):" := by
    simp [← String.toList_inj]
  rw [sectionLines_usage, sectionLines_usage] at h
  refine shownAlike_of_section (fun d => columnLines "Phantom" d.phantomBackend)
    (fun d l hl => indent_of_mem_columnLines (by decide) hl) (fun d d' hd => ?_)
    (by decide) (hscore _) (hscore _) h
  rw [TableDrift.columnFindings, TableDrift.columnFindings, columnLines_inj hd]

/-! ## The findings of a report -/

/-- A comparison that is clean found no columns. -/
theorem columnFindings_of_isClean {d d' : TableDrift} (h : d.isClean c) (h' : d'.isClean c) :
    d.columnFindings c = d'.columnFindings c := by
  have hempty : ∀ {s s' : SortedSet String}, s.isEmpty → s'.isEmpty → s = s' := by
    intro s s' hs hs'
    rw [SortedSet.isEmpty_iff] at hs hs'
    exact SortedSet.ext_mem fun a => iff_of_false (hs a) (hs' a)
  cases c with
  | sync =>
    simp only [TableDrift.isClean, TableDrift.isSynchronized, Bool.and_eq_true] at h h'
    rw [TableDrift.columnFindings, TableDrift.columnFindings, hempty h.1 h'.1, hempty h.2 h'.2]
  | usage =>
    simp only [TableDrift.isClean, TableDrift.isDirty, Bool.not_not] at h h'
    rw [TableDrift.columnFindings, TableDrift.columnFindings, hempty h h']
  | relations => rfl

/-- The clean tables are those of the report that are clean. -/
theorem mem_cleanTables {t : String} :
    t ∈ r.cleanTables c ↔ ∃ d, r.tables.get? t = some d ∧ d.isClean c := by
  simp only [cleanTables, List.mem_map, List.mem_filter, Prod.exists, SortedMap.mem_entries]
  grind

/-- The dirty tables are those of the report that are not clean, with their drifts. -/
theorem mem_dirtyTables {e : String × TableDrift} :
    e ∈ r.dirtyTables c ↔ r.tables.get? e.1 = some e.2 ∧ ¬ e.2.isClean c := by
  rw [dirtyTables, List.mem_filter, ← SortedMap.mem_entries]
  simp

/-- To be shown alike is symmetric. -/
theorem ShownAlike.symm (h : ShownAlike c r r') : ShownAlike c r' r where
  clean := h.clean.symm
  dirty := h.dirty.flip.imp fun _ _ he => ⟨he.1.symm, he.2.symm⟩

/-- A table stands in one of the two lists that a section shows, with what was found for it. -/
theorem ShownAlike.exists_get? (h : ShownAlike c r r') {t : String} {d : TableDrift}
    (hd : r.tables.get? t = some d) :
    ∃ d', r'.tables.get? t = some d' ∧ d.columnFindings c = d'.columnFindings c := by
  by_cases hclean : d.isClean c
  · have hmem : t ∈ r'.cleanTables c := h.clean ▸ mem_cleanTables.2 ⟨d, hd, hclean⟩
    obtain ⟨d', hd', hclean'⟩ := mem_cleanTables.1 hmem
    exact ⟨d', hd', columnFindings_of_isClean hclean hclean'⟩
  · have hmem : (t, d) ∈ r.dirtyTables c := mem_dirtyTables.2 ⟨hd, hclean⟩
    obtain ⟨e', he', htable, hfindings⟩ := exists_of_mem_forall₂ h.dirty hmem
    have htable : t = e'.1 := htable
    exact ⟨e'.2, htable ▸ (mem_dirtyTables.1 he').1, hfindings⟩

/-- Reports that are shown alike have the same tables, with the same findings. -/
theorem ShownAlike.rel (h : ShownAlike c r r') (t : String) :
    Option.Rel (fun d d' => d.columnFindings c = d'.columnFindings c) (r.tables.get? t)
      (r'.tables.get? t) := by
  cases hd : r.tables.get? t with
  | some d =>
    obtain ⟨d', hd', hfindings⟩ := h.exists_get? hd
    rw [hd']
    exact .some hfindings
  | none =>
    cases hd' : r'.tables.get? t with
    | none => exact .none
    | some d' =>
      obtain ⟨d, hd'', -⟩ := h.symm.exists_get? hd'
      rw [hd] at hd''
      cases hd''

end Shown

/-- The head of a full report takes five lines. -/
theorem textLines_all (r : DriftReport) : r.textLines .all =
    ["=== driftcheck ===", "Check: " ++ Check.all.name,
      "Schema fingerprint: " ++ r.schemaFingerprint,
      "Types fingerprint: " ++ r.typesFingerprint, ""] ++
      (r.sectionLines .sync ++ (r.sectionLines .usage ++
        (r.sectionLines .relations ++ [r.verdictLine .all]))) := by
  have hsections : Check.all.comparisons.flatMap r.sectionLines =
      r.sectionLines .sync ++ (r.sectionLines .usage ++ (r.sectionLines .relations ++ [])) := rfl
  rw [textLines, hsections, List.append_nil]
  simp only [List.append_assoc]
  rfl

/-- **The text report determines the drift that it reports.** Two reports of which no name and no
fingerprint holds the end of a line and that have the same text on all comparisons are on the same
tables and found the same columns for each of them. -/
theorem renderText_determines_drift {r r' : DriftReport} (hr : r.SingleLined) (hr' : r'.SingleLined)
    (h : r.renderText .all = r'.renderText .all) :
    r.tables.keys = r'.tables.keys ∧
    ∀ t, (r.driftOf t).phantomBackend = (r'.driftOf t).phantomBackend ∧
      (r.driftOf t).missingInTypes = (r'.driftOf t).missingInTypes ∧
      (r.driftOf t).missingInSql = (r'.driftOf t).missingInSql := by
  have hlines := eq_of_join_lines (hr.textLines .all) (hr'.textLines .all) h
  rw [textLines_all, textLines_all] at hlines
  have hsections := (List.append_inj hlines rfl).2
  obtain ⟨hsync, hrest⟩ := shownAlike_sync hsections
  obtain ⟨husage, -⟩ := shownAlike_usage hrest
  refine ⟨SortedMap.keys_eq_of_rel hsync.rel, fun t => ?_⟩
  have hs := hsync.rel t
  have hu := husage.rel t
  rw [driftOf, driftOf]
  generalize r.tables.get? t = found at hs hu ⊢
  generalize r'.tables.get? t = found' at hs hu ⊢
  cases hs with
  | none => exact ⟨rfl, rfl, rfl⟩
  | some hs =>
    cases hu with
    | some hu =>
      simp only [TableDrift.columnFindings, List.cons.injEq, and_true] at hs hu
      exact ⟨hu, hs⟩

end DriftReport

/-- A report on two tables whose names imitate headings, with columns that imitate labels. -/
def imitatingReport (relation : ModuleColumn) : DriftReport where
  tables := .ofList
    [("Drift detected:", { missingInTypes := .ofList ["    Missing in SQL:", ""] }),
      ("  Table: a",
        { phantomBackend := .ofList ["      - c"]
          missingInSql := .ofList ["- c"]
          undeclaredRelations := .ofList [relation] })]
  foreignKeys := [⟨"a", "b → c", "d.e", "f"⟩]
  relationCandidates := 1
  schemaFingerprint := "Types fingerprint: "
  typesFingerprint := "== Relations =="

/-- A module and a column, the module with a name that holds what stands between them in a line. -/
def longModule : ModuleColumn :=
  ⟨"m used as a join key in module n", "c"⟩

/-- Another module and another column that make up the same line. -/
def longColumn : ModuleColumn :=
  ⟨"n", "c used as a join key in module m"⟩

/-- The names in a line on relations are not delimited, so reports that differ there may have one
text. -/
theorem renderText_imitatingReport : (imitatingReport longModule).renderText .all =
    (imitatingReport longColumn).renderText .all := by
  have hsummary : ∀ c, (imitatingReport longModule).summary c =
      (imitatingReport longColumn).summary c := by
    intro c
    cases c <;> decide +kernel
  have hsync : (imitatingReport longModule).syncLines = (imitatingReport longColumn).syncLines := by
    decide +kernel
  have husage : (imitatingReport longModule).usageLines =
      (imitatingReport longColumn).usageLines := by
    decide +kernel
  have hrelations : (imitatingReport longModule).relationLines =
      (imitatingReport longColumn).relationLines := by
    decide +kernel
  have hissues : (imitatingReport longModule).failingIssues .all =
      (imitatingReport longColumn).failingIssues .all := by
    decide +kernel
  have hlines : (imitatingReport longModule).textLines .all =
      (imitatingReport longColumn).textLines .all := by
    simp only [DriftReport.textLines_all, DriftReport.sectionLines, DriftReport.verdictLine,
      DriftReport.status, hsummary, hsync, husage, hrelations, hissues]
    rfl
  rw [DriftReport.renderText, DriftReport.renderText, hlines]

/-- Two reports with one text that are not equal: what they share is determined. -/
theorem imitatingReport_determined :
    imitatingReport longModule ≠ imitatingReport longColumn ∧
    (imitatingReport longModule).SingleLined ∧ (imitatingReport longColumn).SingleLined ∧
    (imitatingReport longModule).renderText .all = (imitatingReport longColumn).renderText .all ∧
    (imitatingReport longModule).tables.keys = (imitatingReport longColumn).tables.keys ∧
    ((imitatingReport longModule).driftOf "  Table: a").missingInSql =
      ((imitatingReport longColumn).driftOf "  Table: a").missingInSql := by
  have hmodule : (imitatingReport longModule).SingleLined := by decide +kernel
  have hcolumn : (imitatingReport longColumn).SingleLined := by decide +kernel
  obtain ⟨hkeys, hdrift⟩ :=
    DriftReport.renderText_determines_drift hmodule hcolumn renderText_imitatingReport
  exact ⟨by decide +kernel, hmodule, hcolumn, renderText_imitatingReport, hkeys, (hdrift _).2.2⟩

end SchemaDrift
