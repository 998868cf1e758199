import SchemaDrift.Proofs.Query.Order
import SchemaDrift.Proofs.Query.Relations

/-!
# To which table a column belongs

The events of a file stand in the order of their positions in its text (`moduleEvents_placed`).
Reading them keeps the table that was selected last. So a use of a column goes with the table for
which `SelectsLast` holds of the events before it (`mem_usesOf`), and with none if these select no
table (`filter_usesOf`). From one file this carries over to lists of files, since files are
joined and never mixed: `pairing_exact` tells the columns, the tables and the diagnostics of every
list of files by the places of its events alone.
-/

namespace SchemaDrift.Query

open SchemaDrift.Scan

/-- Whether an event selects a table. -/
def Event.isTable : Event → Bool
  | table _ => true
  | column _ => false

/-- The use of a column that an event is. -/
def Event.use? : Event → Option ColumnUse
  | table _ => none
  | column use => some use

/-- A table is the last that events select. -/
def SelectsLast (es : List Event) (t : String) : Prop :=
  ∃ before after, es = before ++ .table t :: after ∧ ∀ e ∈ after, ¬ e.isTable

/-- The uses of columns among events that no selection of a table precedes, in order. -/
def unselectedUses (es : List Event) : List ColumnUse :=
  (List.range es.length).filterMap fun i =>
    if (es.take i).any Event.isTable then none else es[i]?.bind Event.use?

/-! ## Events of one file -/

/-- The events of a file are what the three searches find in its text, put in the order of their
positions; at one position they keep the order of the searches. -/
theorem moduleEvents_placed (m : Source) :
    let text := stripComments .typeScript m.text.toList
    ∃ placed : List (Nat × Event), moduleEvents m = placed.map (·.2) ∧
      (placed.Pairwise fun a b => a.1 ≤ b.1) ∧
      ∀ i, placed.filter (·.1 == i) =
        (tableEvents text ++ predicateEvents text ++ orEvents text).filter (·.1 == i) := by
  intro text
  refine ⟨(tableEvents text ++ predicateEvents text ++ orEvents text).mergeSort notBehind, rfl, ?_,
    fun i => atPosition_mergeSort i _⟩
  have hsorted := List.pairwise_mergeSort notBehind_trans notBehind_total
    (tableEvents text ++ predicateEvents text ++ orEvents text)
  exact hsorted.imp of_decide_eq_true

/-- The tables of events are those that an event selects. -/
theorem mem_tablesOf {es : List Event} {t : String} : t ∈ tablesOf es ↔ .table t ∈ es := by
  rw [tablesOf, List.mem_filterMap]
  constructor
  · rintro ⟨e, he, ht⟩
    cases e with
    | table name => cases ht; exact he
    | column use => cases ht
  · exact fun h => ⟨_, h, rfl⟩

/-- Events have no tables if none of them selects one. -/
theorem tablesOf_eq_nil {es : List Event} : tablesOf es = [] ↔ ∀ e ∈ es, ¬ e.isTable := by
  rw [tablesOf, List.filterMap_eq_nil_iff]
  refine forall₂_congr fun e _ => ?_
  cases e <;> simp [Event.isTable]

/-- The table selected last is the last one of the tables. -/
theorem selectsLast_iff {es : List Event} {t : String} :
    SelectsLast es t ↔ (tablesOf es).getLast? = some t := by
  rw [List.getLast?_eq_some_iff]
  constructor
  · rintro ⟨before, after, rfl, hafter⟩
    refine ⟨tablesOf before, ?_⟩
    rw [Chain.tablesOf_append]
    show _ ++ t :: tablesOf after = _
    rw [tablesOf_eq_nil.2 hafter]
  · rintro ⟨ts, hts⟩
    obtain ⟨before, rest, rfl, -, hrest⟩ := List.filterMap_eq_append_iff.1 hts
    obtain ⟨between, e, after, rfl, -, he, hafter⟩ := List.filterMap_eq_cons_iff.1 hrest
    cases e with
    | column use => cases he
    | table name =>
      cases he
      exact ⟨before ++ between, after, by rw [List.append_assoc], tablesOf_eq_nil.1 hafter⟩

/-- A use goes with the table that the events before it select last, or with the one that was
current at first. -/
theorem mem_usesFrom {es : List Event} {current table : Option String} {use : ColumnUse} :
    (table, use) ∈ usesFrom current es ↔ ∃ before after, es = before ++ .column use :: after ∧
      table = (tablesOf before).getLast?.or current := by
  induction es generalizing current with
  | nil => simp [usesFrom]
  | cons e es ih =>
    cases e with
    | table name =>
      have hlast : ∀ before, (tablesOf (.table name :: before)).getLast?.or current =
          (tablesOf before).getLast?.or (some name) := by
        intro before
        show (name :: tablesOf before).getLast?.or current = _
        rw [List.getLast?_cons]
        cases (tablesOf before).getLast? <;> rfl
      rw [usesFrom, ih]
      constructor
      · rintro ⟨before, after, rfl, htable⟩
        exact ⟨.table name :: before, after, rfl, htable.trans (hlast before).symm⟩
      · rintro ⟨before, after, hes, htable⟩
        cases before with
        | nil => cases hes
        | cons e before =>
          obtain ⟨rfl, rfl⟩ := List.cons.inj hes
          exact ⟨before, after, rfl, htable.trans (hlast before)⟩
    | column first =>
      rw [usesFrom, List.mem_cons, ih]
      constructor
      · rintro (he | ⟨before, after, rfl, htable⟩)
        · cases he
          exact ⟨[], es, rfl, rfl⟩
        · exact ⟨.column first :: before, after, rfl, htable⟩
      · rintro ⟨before, after, hes, htable⟩
        cases before with
        | nil => cases hes; exact .inl (Prod.ext htable rfl)
        | cons e before =>
          obtain ⟨rfl, rfl⟩ := List.cons.inj hes
          exact .inr ⟨before, after, rfl, htable⟩

/-- A use goes with a table exactly if the table is selected last before it. -/
theorem mem_usesOf {es : List Event} {t : String} {use : ColumnUse} :
    (some t, use) ∈ usesOf es ↔
      ∃ before after, es = before ++ .column use :: after ∧ SelectsLast before t := by
  simp only [usesOf, mem_usesFrom, Option.or_none, selectsLast_iff, @eq_comm _ (some t)]

/-- Every use of a column is kept, whatever table it goes with. -/
theorem exists_mem_usesOf {es : List Event} {use : ColumnUse} :
    (∃ table, (table, use) ∈ usesOf es) ↔ .column use ∈ es := by
  rw [List.mem_iff_append]
  constructor
  · rintro ⟨table, h⟩
    obtain ⟨before, after, hes, -⟩ := mem_usesFrom.1 h
    exact ⟨before, after, hes⟩
  · rintro ⟨before, after, hes⟩
    exact ⟨_, mem_usesFrom.2 ⟨before, after, hes, rfl⟩⟩

/-- Once a table is current, every use goes with a table. -/
theorem isSome_of_mem_usesFrom {es : List Event} {name : String} {u : Option String × ColumnUse}
    (h : u ∈ usesFrom (some name) es) : u.1.isSome := by
  obtain ⟨before, after, -, htable⟩ := mem_usesFrom.1 h
  rw [htable]
  cases (tablesOf before).getLast? <;> rfl

/-- The uses that go with no table are those that no selection of a table precedes. -/
theorem filter_usesOf (es : List Event) :
    ((usesOf es).filter (·.1.isNone)).map (·.2) = unselectedUses es := by
  rw [usesOf]
  induction es with
  | nil => rfl
  | cons e es ih =>
    have hlater : unselectedUses (e :: es) = (e.use?.toList ++
        (List.range es.length).filterMap fun i =>
          if e.isTable || (es.take i).any Event.isTable then none else es[i]?.bind Event.use?) := by
      rw [unselectedUses, List.length_cons, List.range_succ_eq_map, List.filterMap_cons,
        List.filterMap_map]
      cases e <;> rfl
    rw [hlater]
    cases e with
    | table name =>
      have hnone : (usesFrom (some name) es).filter (·.1.isNone) = [] := by
        refine List.filter_eq_nil_iff.2 fun u hu => ?_
        simpa [Option.isSome_iff_ne_none] using isSome_of_mem_usesFrom hu
      rw [usesFrom, hnone]
      simp [Event.isTable, Event.use?]
    | column use => exact congrArg (use :: ·) ih

/-! ## Files -/

/-- What is reported on a use of a column that goes with no table. -/
def unpaired (m : Source) (use : ColumnUse) : Diagnostic :=
  ⟨m.name, .unpairedPredicate, "column `" ++ use.name ++ "` used before any .from(...) call"⟩

/-- Under the nearest policy, the uses before every selection are reported. -/
theorem diagnostics_nearest (m : Source) :
    diagnostics .nearest m = (unselectedUses (moduleEvents m)).map (unpaired m) := by
  rw [← filter_usesOf, diagnostics, eventDiagnostics]
  induction usesOf (moduleEvents m) with
  | nil => rfl
  | cons u us ih =>
    obtain ⟨table, use⟩ := u
    cases table with
    | none => exact congrArg (unpaired m use :: ·) ih
    | some t => exact ih

/-- Under the nearest policy, a column is paired with a table if a use of it stands where the table
is selected last. -/
theorem mem_pairs_nearest {es : List Event} {t c : String} :
    (t, c) ∈ pairs .nearest es ↔ ∃ before use after, es = before ++ .column use :: after ∧
      use.name = c ∧ SelectsLast before t := by
  rw [pairs, List.mem_filterMap]
  constructor
  · rintro ⟨⟨table, use⟩, hu, hp⟩
    obtain ⟨t', rfl, he⟩ := Option.map_eq_some_iff.1 hp
    cases he
    obtain ⟨before, after, hes, hlast⟩ := mem_usesOf.1 hu
    exact ⟨before, use, after, hes, rfl, hlast⟩
  · rintro ⟨before, use, after, hes, rfl, hlast⟩
    exact ⟨(some t, use), mem_usesOf.2 ⟨before, after, hes, hlast⟩, rfl⟩

/-- Under the cross product, every column used is paired with every table selected. -/
theorem mem_pairs_crossProduct {es : List Event} {t c : String} :
    (t, c) ∈ pairs .crossProduct es ↔
      .table t ∈ es ∧ ∃ use : ColumnUse, .column use ∈ es ∧ use.name = c := by
  simp only [pairs, List.mem_flatMap, List.mem_map, mem_tablesOf, ← exists_mem_usesOf]
  constructor
  · rintro ⟨t', ht', ⟨table, use⟩, hu, he⟩
    cases he
    exact ⟨ht', use, ⟨table, hu⟩, rfl⟩
  · rintro ⟨ht, use, ⟨table, hu⟩, rfl⟩
    exact ⟨t, ht, (table, use), hu, rfl⟩

/-- A list of files names the tables that one of them selects. -/
theorem Draft.containsTable_ofModules {p : Pairing} {ms : List Source} {t : String} :
    (ofModules p ms).columns.containsTable t ↔ ∃ m ∈ ms, .table t ∈ moduleEvents m := by
  induction ms with
  | nil => simp [ofModules]
  | cons m ms ih =>
    have hfile : (ofModules p [m]).columns.containsTable t ↔ .table t ∈ moduleEvents m := by
      show (add p {} m).columns.containsTable t ↔ _
      rw [columns_add, ← mem_tablesOf]
      simp only [addColumns, ColumnSet.containsTable_foldl_insertColumn,
        ColumnSet.containsTable_foldl_insertTable, ColumnSet.not_containsTable_empty]
      constructor
      · rintro (⟨c, hc⟩ | ht | hempty)
        · exact mem_tablesOf_of_mem_pairs hc
        · exact ht
        · cases hempty
      · exact fun ht => .inr (.inl ht)
    rw [ofModules_cons, List.exists_mem_cons_iff, ← ih, ← hfile]
    exact ColumnSet.containsTable_union

/-- A column is used on a table if one file pairs the two. -/
theorem mem_columnsOf_extract {p : Pairing} {ms : List Source} {t c : String} :
    c ∈ (extract p ms).snapshot.columns.columnsOf t ↔
      ∃ m ∈ ms, (t, c) ∈ pairs p (moduleEvents m) := by
  simp only [← Draft.mem_columnsOf_ofModules_singleton]
  exact Draft.mem_columnsOf_ofModules

/-- Each use of a column in a file goes with the table selected last before it, or it is reported if
there is none. -/
theorem paired_or_reported {ms : List Source} {m : Source} (hm : m ∈ ms) {before after : List Event}
    {use : ColumnUse} (hes : moduleEvents m = before ++ .column use :: after) :
    (∃ t, SelectsLast before t ∧
      use.name ∈ (extract .nearest ms).snapshot.columns.columnsOf t) ∨
    (∀ e ∈ before, ¬ e.isTable) ∧ unpaired m use ∈ (extract .nearest ms).diagnostics := by
  cases hlast : (tablesOf before).getLast? with
  | some t =>
    rw [← selectsLast_iff] at hlast
    refine .inl ⟨t, hlast, mem_columnsOf_extract.2 ⟨m, hm, ?_⟩⟩
    exact mem_pairs_nearest.2 ⟨before, use, after, hes, rfl, hlast⟩
  | none =>
    refine .inr ⟨tablesOf_eq_nil.1 (List.getLast?_eq_none_iff.1 hlast), ?_⟩
    refine List.mem_flatMap.2 ⟨m, hm, ?_⟩
    rw [diagnostics_nearest, ← filter_usesOf]
    refine List.mem_map_of_mem (List.mem_map.2 ⟨(none, use), List.mem_filter.2 ⟨?_, rfl⟩, rfl⟩)
    exact mem_usesFrom.2 ⟨before, after, hes, by rw [hlast]; rfl⟩

/-- **Pairing is exact and accounts for every use of a column.** The events of a file stand in the
order of their positions. For every list of files, a column is paired with the nearest table exactly
if in some file a use of the column has that table as the last one selected before it, and under the
cross product exactly if some file both selects the table and uses the column. Under either policy
the tables are those that a file selects. With the nearest table, what is reported is, file by file
and in the order of the events, each use of a column that no selection of a table precedes, so every
use is paired or reported; under the cross product nothing is reported. -/
theorem pairing_exact (ms : List Source) :
    let near := extract .nearest ms
    let cross := extract .crossProduct ms
    (∀ m ∈ ms, let text := stripComments .typeScript m.text.toList
      ∃ placed : List (Nat × Event), moduleEvents m = placed.map (·.2) ∧
        (placed.Pairwise fun a b => a.1 ≤ b.1) ∧
        ∀ i, placed.filter (·.1 == i) =
          (tableEvents text ++ predicateEvents text ++ orEvents text).filter (·.1 == i)) ∧
    (∀ t c, c ∈ near.snapshot.columns.columnsOf t ↔
      ∃ m ∈ ms, ∃ before use after, moduleEvents m = before ++ .column use :: after ∧
        use.name = c ∧ SelectsLast before t) ∧
    (∀ t c, c ∈ cross.snapshot.columns.columnsOf t ↔
      ∃ m ∈ ms, .table t ∈ moduleEvents m ∧
        ∃ use : ColumnUse, .column use ∈ moduleEvents m ∧ use.name = c) ∧
    (∀ p t, (extract p ms).snapshot.columns.containsTable t ↔
      ∃ m ∈ ms, .table t ∈ moduleEvents m) ∧
    near.diagnostics = ms.flatMap (fun m => (unselectedUses (moduleEvents m)).map (unpaired m)) ∧
    (∀ m ∈ ms, ∀ before use after, moduleEvents m = before ++ .column use :: after →
      (∃ t, SelectsLast before t ∧ use.name ∈ near.snapshot.columns.columnsOf t) ∨
      (∀ e ∈ before, ¬ e.isTable) ∧ unpaired m use ∈ near.diagnostics) ∧
    cross.diagnostics = [] := by
  intro near cross
  refine ⟨fun m _ => moduleEvents_placed m, fun t c => ?_, fun t c => ?_,
    fun p t => Draft.containsTable_ofModules, ?_,
    fun m hm before use after => paired_or_reported hm, diagnostics_crossProduct ms⟩
  · simp only [near, mem_columnsOf_extract, mem_pairs_nearest]
  · simp only [cross, mem_columnsOf_extract, mem_pairs_crossProduct]
  · exact List.flatMap_congr fun m _ => diagnostics_nearest m

/-- A module that compares a join key on no table. -/
def looseModule : Source :=
  ⟨"loose", "sb.eq('user_id', id);"⟩

/-- The module without a selection has one event. -/
theorem moduleEvents_looseModule :
    moduleEvents looseModule = [.column ⟨"user_id", true, some "id"⟩] := by
  decide +kernel

/-- A use behind a selection is paired, and one in another file is reported, though the file before
it selects a table. -/
theorem pairing_looseModule :
    let near := extract .nearest [feedModule, looseModule]
    let use : ColumnUse := ⟨"user_id", true, some "id"⟩
    moduleEvents feedModule = [.table "posts"] ++ .column use :: [] ∧
    moduleEvents looseModule = [] ++ .column use :: [] ∧
    "user_id" ∈ near.snapshot.columns.columnsOf "posts" ∧
    unpaired looseModule use ∈ near.diagnostics := by
  intro near use
  have hfeed : feedModule ∈ [feedModule, looseModule] := List.mem_cons_self
  have hloose : looseModule ∈ [feedModule, looseModule] :=
    List.mem_cons_of_mem _ List.mem_cons_self
  have hexact := pairing_exact [feedModule, looseModule]
  refine ⟨moduleEvents_feedModule, moduleEvents_looseModule, (hexact.2.1 _ _).2 ?_, ?_⟩
  · exact ⟨feedModule, hfeed, [.table "posts"], use, [], moduleEvents_feedModule, rfl, [], [], rfl,
      List.forall_mem_nil _⟩
  · rcases hexact.2.2.2.2.2.1 looseModule hloose [] use [] moduleEvents_looseModule with
      ⟨t, hlast, -⟩ | ⟨-, hreported⟩
    · cases selectsLast_iff.1 hlast
    · exact hreported

end SchemaDrift.Query
