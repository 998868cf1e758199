import SchemaDrift.Proofs.Drift.Difference
import SchemaDrift.Proofs.Query.Modules

/-!
# From relation candidates to the report

A report looks at the tables that the snapshots name and never at the tables of the candidates, so
it misses none only because a candidate's tables are always in use. `Draft.Supports` says what
stands behind a candidate: a join key that its module mentions, on tables that its module selects.
One file by itself supports its candidates (`rooted_singleton`), and joining drafts keeps the
support (`Draft.Rooted.join`). So every candidate is reported on each of its tables or is a foreign
key there, and nothing else is reported (`candidates_reported_exactly`).
-/

namespace SchemaDrift.Query

open SchemaDrift.Scan

/-! ## One file -/

/-- A use of a join key is the use of a column that looks like one. -/
theorem isJoinKey_of_mem_relationUses {p : Pairing} {es : List Event} {r : RelationUse}
    (h : r ∈ relationUses p es) :
    isJoinKey r.column ∧ r.column ∈ (usesOf es).map (·.2.name) := by
  obtain ⟨u, hu, hru⟩ := List.mem_filterMap.1 h
  split at hru
  · next hkey =>
    cases hru
    exact ⟨(Bool.and_eq_true _ _ ▸ hkey).2, List.mem_map.2 ⟨u, hu, rfl⟩⟩
  · cases hru

namespace Draft

/-- A draft with what stands behind a candidate: a column that looks like a join key, in a module
that mentions the column and all tables of the candidate. -/
structure Supports (d : Draft) (c : RelationCandidate) : Prop where
  joinKey : isJoinKey c.column
  mentioned : ∃ m, d.modules.get? c.module = some m ∧ c.column ∈ m.columns ∧
    ∀ t ∈ c.tables, t ∈ m.tables

/-- A draft that supports all its candidates. -/
def Rooted (d : Draft) : Prop :=
  ∀ k c, d.candidates.get? k = some c → d.Supports c

/-- The module of a file by itself mentions the tables and columns of the file. -/
theorem modules_ofModules_singleton (p : Pairing) (m : Source) :
    (ofModules p [m]).modules.get? m.name =
      some { tables := SortedSet.insertMany ∅ (tablesOf (moduleEvents m))
             columns := SortedSet.insertMany ∅ ((usesOf (moduleEvents m)).map (·.2.name)) } := by
  show (add p {} m).modules.get? m.name = _
  rw [modules_add, addModule, SortedMap.get?_update, if_pos rfl]
  rfl

/-- The draft of one file supports all its candidates. -/
theorem rooted_singleton (p : Pairing) (m : Source) : (ofModules p [m]).Rooted := by
  intro k c hc
  have hholds : (ofModules p [m]).Holds m.name ([] ++ relationUses p (moduleEvents m)) :=
    Holds.foldl_addRelation (.empty rfl) _
  rw [List.nil_append] at hholds
  obtain ⟨-, hjoins⟩ := hholds.joins k c hc
  obtain ⟨r, hr, hcolumn⟩ := hjoins.used
  obtain ⟨hkey, hused⟩ := isJoinKey_of_mem_relationUses hr
  rw [hcolumn] at hkey hused
  have hmodule := modules_ofModules_singleton p m
  rw [← hjoins.module] at hmodule
  refine ⟨hkey, _, hmodule, SortedSet.mem_insertMany.2 (.inr hused), fun t ht => ?_⟩
  obtain ⟨s, hs, -, hts⟩ := (hjoins.tables t).1 ht
  have hselected := mem_tablesOf_of_mem_pairs (mem_pairs_of_relationUses hs hts)
  exact SortedSet.mem_insertMany.2 (.inr hselected)

/-! ## Lists of files -/

namespace Supports

variable {a b : Draft} {c : RelationCandidate}

/-- A module mentions no less after a join with a draft behind. -/
theorem join_left (h : a.Supports c) : (a.join b).Supports c where
  joinKey := h.joinKey
  mentioned := by
    obtain ⟨m, hm, hcolumn, htables⟩ := h.mentioned
    rw [join, SortedMap.get?_unionWith, hm]
    cases b.modules.get? c.module with
    | none => exact ⟨m, rfl, hcolumn, htables⟩
    | some n =>
      exact ⟨m.union n, rfl, SortedSet.mem_union.2 (.inl hcolumn),
        fun t ht => SortedSet.mem_union.2 (.inl (htables t ht))⟩

/-- A module mentions no less after a join with a draft in front. -/
theorem join_right (h : b.Supports c) : (a.join b).Supports c where
  joinKey := h.joinKey
  mentioned := by
    obtain ⟨m, hm, hcolumn, htables⟩ := h.mentioned
    rw [join, SortedMap.get?_unionWith, hm]
    cases a.modules.get? c.module with
    | none => exact ⟨m, rfl, hcolumn, htables⟩
    | some n =>
      exact ⟨n.union m, rfl, SortedSet.mem_union.2 (.inr hcolumn),
        fun t ht => SortedSet.mem_union.2 (.inr (htables t ht))⟩

/-- Two supported candidates of a column are supported together. -/
theorem candidate_join {d : Draft} {c c' : RelationCandidate} (h : d.Supports c)
    (h' : d.Supports c') (hmodule : c'.module = c.module) : d.Supports (c.join c') where
  joinKey := h.joinKey
  mentioned := by
    obtain ⟨m, hm, hcolumn, htables⟩ := h.mentioned
    obtain ⟨m', hm', -, htables'⟩ := h'.mentioned
    rw [hmodule, hm] at hm'
    cases hm'
    exact ⟨m, hm, hcolumn, fun t ht => (SortedSet.mem_union.1 ht).elim (htables t) (htables' t)⟩

end Supports

/-- Joined drafts support their candidates if each of the two does. -/
theorem Rooted.join {a b : Draft} (ha : a.Rooted) (hb : b.Rooted) (hga : a.Grounded)
    (hgb : b.Grounded) : (a.join b).Rooted := by
  intro k c hc
  rw [Draft.join, SortedMap.get?_unionWith] at hc
  cases hx : a.candidates.get? k with
  | none =>
    rw [hx] at hc
    cases hy : b.candidates.get? k with
    | none => rw [hy] at hc; cases hc
    | some y =>
      rw [hy] at hc
      cases hc
      exact (hb k _ hy).join_right
  | some x =>
    rw [hx] at hc
    cases hy : b.candidates.get? k with
    | none =>
      rw [hy] at hc
      cases hc
      exact (ha k _ hx).join_left
    | some y =>
      rw [hy] at hc
      cases hc
      have hkey := (hgb.key k y hy).trans (hga.key k x hx).symm
      exact (ha k x hx).join_left.candidate_join (hb k y hy).join_right
        (congrArg ModuleColumn.module hkey)

/-- The draft of files supports all its candidates. -/
theorem rooted_ofModules (p : Pairing) (ms : List Source) : (ofModules p ms).Rooted := by
  induction ms with
  | nil => exact fun _ _ hc => nomatch hc
  | cons m ms ih =>
    rw [ofModules_cons]
    exact (rooted_singleton p m).join ih (grounded_ofModules p [m]) (grounded_ofModules p ms)

end Draft

/-- What stands behind a candidate of a list of files. -/
theorem supports_of_mem_candidates {p : Pairing} {ms : List Source} {c : RelationCandidate}
    (h : c ∈ (extract p ms).snapshot.relationCandidates) : (Draft.ofModules p ms).Supports c := by
  obtain ⟨k, hk⟩ := SortedMap.mem_values.1 h
  exact Draft.rooted_ofModules p ms k c hk

/-! ## The report -/

/-- **No relation candidate is lost or invented.** Every candidate of a list of files is a column
whose name ends in `_id`; its module mentions the column and each of its tables, and the column is
in use on each of these. In the report on any schema and types, a candidate is on each of its tables
a foreign key or an undeclared relation of the table's entry. Every undeclared relation that is
reported at a table comes from a candidate on it, its column is in use there, and no foreign key
starts there. -/
theorem candidates_reported_exactly (p : Pairing) (ms : List Source) (schema : Schema)
    (types : RowTypes) :
    let u := (extract p ms).snapshot
    let r := analyze schema types u
    (∀ c ∈ u.relationCandidates,
      ['_', 'i', 'd'] <:+ c.column.toList ∧
      (∃ m, u.modules.get? c.module = some m ∧ c.column ∈ m.columns ∧
        ∀ t ∈ c.tables, t ∈ m.tables) ∧
      ∀ t ∈ c.tables, c.column ∈ u.columns.columnsOf t) ∧
    (∀ c ∈ u.relationCandidates, ∀ t ∈ c.tables,
      (∃ fk ∈ schema.foreignKeys, fk.sourceTable = t ∧ fk.sourceColumn = c.column) ∨
      ∃ d, r.tables.get? t = some d ∧ ⟨c.module, c.column⟩ ∈ d.undeclaredRelations) ∧
    ∀ t d, r.tables.get? t = some d → ∀ m c, ⟨m, c⟩ ∈ d.undeclaredRelations →
      (∃ k ∈ u.relationCandidates, k.module = m ∧ k.column = c ∧ t ∈ k.tables) ∧
      c ∈ u.columns.columnsOf t ∧
      ¬ ∃ fk ∈ schema.foreignKeys, fk.sourceTable = t ∧ fk.sourceColumn = c := by
  intro u r
  refine ⟨fun c hc => ?_, fun c hc t ht => ?_, fun t d hd m c hm => ?_⟩
  · have hsupports := supports_of_mem_candidates hc
    exact ⟨List.isSuffixOf_iff_suffix.1 hsupports.joinKey, hsupports.mentioned,
      fun t ht => mem_columnsOf_of_mem_candidates hc ht⟩
  · by_cases hfk : ∃ fk ∈ schema.foreignKeys, fk.sourceTable = t ∧ fk.sourceColumn = c.column
    · exact .inl hfk
    · -- The table is in use, so the report has an entry for it.
      have hkey : t ∈ r.tables.keys := (mem_keys_analyze schema types u t).2
        (.inr (.inr (containsTable_of_mem_candidates hc ht)))
      obtain ⟨d, hd⟩ := Option.isSome_iff_exists.1 (SortedMap.mem_keys.1 hkey)
      refine .inr ⟨d, hd, ?_⟩
      rw [← DriftReport.driftOf_of_get? hd]
      exact (mem_undeclaredRelations_analyze schema types u t hkey).2
        ⟨⟨c, hc, rfl, rfl, ht⟩, hfk⟩
  · have hkey : t ∈ r.tables.keys := SortedMap.mem_keys.2 (by rw [hd]; rfl)
    rw [← DriftReport.driftOf_of_get? hd] at hm
    obtain ⟨⟨k, hk, hmodule, rfl, ht⟩, hfk⟩ :=
      (mem_undeclaredRelations_analyze schema types u t hkey).1 hm
    exact ⟨⟨k, hk, hmodule, rfl, ht⟩, mem_columnsOf_of_mem_candidates hk ht, hfk⟩

/-- A module that selects a table and compares a join key on it. -/
def feedModule : Source :=
  ⟨"feed", "sb.from('posts').eq('user_id', id);"⟩

/-- The events of the feed module, in order. -/
theorem moduleEvents_feedModule :
    moduleEvents feedModule = [.table "posts", .column ⟨"user_id", true, some "id"⟩] := by
  have hplaced : let text := stripComments .typeScript feedModule.text.toList
      tableEvents text ++ predicateEvents text ++ orEvents text =
        [(2, .table "posts"), (16, .column ⟨"user_id", true, some "id"⟩)] := by decide +kernel
  rw [moduleEvents, events, hplaced, inOrder, List.mergeSort_of_pairwise (by decide)]
  rfl

/-- The join key of that module is reported where no foreign key is declared. -/
theorem feedModule_reported :
    let u := (extract .nearest [feedModule]).snapshot
    let c : RelationCandidate := ⟨"feed", "user_id", .ofList ["posts"], some "id"⟩
    c ∈ u.relationCandidates ∧ "posts" ∈ c.tables ∧ "user_id" ∈ u.columns.columnsOf "posts" ∧
      ∃ d, (analyze {} {} u).tables.get? "posts" = some d ∧
        ⟨"feed", "user_id"⟩ ∈ d.undeclaredRelations := by
  intro u c
  have hc : c ∈ u.relationCandidates := by
    have hlist : u.relationCandidates = [c] := by
      show (Draft.add .nearest {} feedModule).candidates.values = [c]
      rw [Draft.add, moduleEvents_feedModule]
      decide
    rw [hlist]
    exact List.mem_singleton_self c
  have ht : "posts" ∈ c.tables := by decide
  have hreported := candidates_reported_exactly .nearest [feedModule] {} {}
  refine ⟨hc, ht, (hreported.1 c hc).2.2 "posts" ht,
    (hreported.2.1 c hc "posts" ht).resolve_left fun hkey => ?_⟩
  obtain ⟨fk, hmem, -⟩ := hkey
  cases hmem

end SchemaDrift.Query
