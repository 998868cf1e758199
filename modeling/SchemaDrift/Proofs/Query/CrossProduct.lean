import SchemaDrift.Proofs.Drift.Coverage
import SchemaDrift.Proofs.Verify.Inputs

/-!
# The cross product covers the nearest table

Pairing a column with every table of its file gives at least what pairing it with the nearest table
gives. The two policies see the same events, and the table selected last before a use is one of the
tables of the file (`mem_tablesOf_of_mem_usesOf`). Reading one more file keeps a draft covered
(`Draft.CoveredBy.add`), so the usage of a list of files is covered (`extract_coveredBy`), and with
it every report and every run (`crossProduct_overapproximates`).
-/

namespace SchemaDrift.Query

/-! ## Events of one file -/

/-- The table of a use is the one that was current at first, or it is selected by the events. -/
theorem mem_tablesOf_of_mem_usesFrom {es : List Event} {current : Option String} {t : String}
    {u : ColumnUse} (h : (some t, u) ∈ usesFrom current es) :
    current = some t ∨ t ∈ tablesOf es := by
  induction es generalizing current with
  | nil => cases h
  | cons e es ih =>
    cases e with
    | table name =>
      rcases ih h with hname | hes
      · cases hname
        exact .inr List.mem_cons_self
      · exact .inr (List.mem_cons_of_mem _ hes)
    | column use =>
      rcases List.mem_cons.1 h with heq | hes
      · cases heq
        exact .inl rfl
      · exact ih hes

/-- A table that a use goes with is one of the tables. -/
theorem mem_tablesOf_of_mem_usesOf {es : List Event} {t : String} {u : ColumnUse}
    (h : (some t, u) ∈ usesOf es) : t ∈ tablesOf es :=
  (mem_tablesOf_of_mem_usesFrom h).elim nofun id

/-- A column is paired with a table that the file selects, under either policy. -/
theorem mem_tablesOf_of_mem_pairs {p : Pairing} {es : List Event} {t c : String}
    (h : (t, c) ∈ pairs p es) : t ∈ tablesOf es := by
  cases p with
  | nearest =>
    obtain ⟨⟨current, use⟩, hu, hp⟩ := List.mem_filterMap.1 h
    obtain ⟨t', rfl, he⟩ := Option.map_eq_some_iff.1 hp
    cases he
    exact mem_tablesOf_of_mem_usesOf hu
  | crossProduct =>
    obtain ⟨t', ht', hp⟩ := List.mem_flatMap.1 h
    obtain ⟨u, _, he⟩ := List.mem_map.1 hp
    cases he
    exact ht'

/-- What the nearest policy pairs, the cross product pairs too. -/
theorem mem_pairs_crossProduct_of_nearest {es : List Event} {t c : String}
    (h : (t, c) ∈ pairs .nearest es) : (t, c) ∈ pairs .crossProduct es := by
  have ht := mem_tablesOf_of_mem_pairs h
  obtain ⟨⟨current, use⟩, hu, hp⟩ := List.mem_filterMap.1 h
  obtain ⟨t', rfl, he⟩ := Option.map_eq_some_iff.1 hp
  cases he
  exact List.mem_flatMap.2 ⟨_, ht, List.mem_map.2 ⟨_, hu, rfl⟩⟩

/-- A use of a join key with the column and argument of another, on no further table. -/
structure RelationUse.CoveredBy (a b : RelationUse) : Prop where
  column : a.column = b.column
  argument : a.argument = b.argument
  tables : ∀ t ∈ a.tables, t ∈ b.tables

/-- The two policies find the same uses of join keys, in the same order. -/
theorem relationUses_coveredBy (es : List Event) :
    List.Forall₂ RelationUse.CoveredBy (relationUses .nearest es)
      (relationUses .crossProduct es) := by
  have hmem : ∀ u ∈ usesOf es, ∀ t ∈ u.1.toList, t ∈ tablesOf es := by
    rintro ⟨current, use⟩ hu t ht
    rw [Option.mem_toList] at ht
    cases ht
    exact mem_tablesOf_of_mem_usesOf hu
  simp only [relationUses]
  generalize usesOf es = us at hmem
  induction us with
  | nil => exact .nil
  | cons u us ih =>
    have hus := ih fun v hv => hmem v (List.mem_cons_of_mem _ hv)
    rw [List.filterMap_cons, List.filterMap_cons]
    split
    · next hn =>
      split at hn
      · cases hn
      · next hc => simpa [hc] using hus
    · next r hr =>
      split at hr
      · next hc =>
        cases hr
        simp only [hc, if_true]
        refine .cons ⟨rfl, rfl, fun t ht => ?_⟩ hus
        rw [SortedSet.mem_ofList] at ht ⊢
        exact hmem u List.mem_cons_self t ht
      · cases hr

/-! ## Drafts -/

/-- A draft of the modules and tables of another, with no further column of a table and with the
same relation candidates, each on no further table. -/
structure Draft.CoveredBy (a b : Draft) : Prop where
  modules : a.modules = b.modules
  tables : ∀ t, a.columns.containsTable t ↔ b.columns.containsTable t
  columns : ∀ t c, c ∈ a.columns.columnsOf t → c ∈ b.columns.columnsOf t
  candidates : ∀ k, Option.Rel RelationCandidate.CoveredBy (a.candidates.get? k)
    (b.candidates.get? k)

namespace Draft.CoveredBy

/-- The empty drafts cover each other. -/
theorem empty : ({} : Draft).CoveredBy {} where
  modules := rfl
  tables _ := Iff.rfl
  columns _ _ h := h
  candidates _ := .none

variable {a b : Draft} (h : a.CoveredBy b)
include h

/-- Adding uses of join keys of which one covers the other keeps a draft covered. -/
theorem addRelation (m : String) {r s : RelationUse} (hr : r.CoveredBy s) :
    (a.addRelation m r).CoveredBy (b.addRelation m s) where
  modules := h.modules
  tables := h.tables
  columns := h.columns
  candidates k := by
    show Option.Rel _ ((a.candidates.update _ _).get? k) ((b.candidates.update _ _).get? k)
    rw [SortedMap.get?_update, SortedMap.get?_update, ← hr.column]
    split
    · have hk := h.candidates ⟨m, r.column⟩
      generalize a.candidates.get? _ = x at hk ⊢
      generalize b.candidates.get? _ = y at hk ⊢
      cases hk with
      | none => exact .some ⟨rfl, rfl, hr.argument, hr.tables⟩
      | some hc =>
        refine .some ⟨hc.module, hc.column, ?_, fun t ht => ?_⟩
        · simp only [hc.argument, hr.argument]
        · rw [SortedSet.mem_union] at ht ⊢
          exact ht.imp (hc.tables t) (hr.tables t)
    · exact h.candidates k

/-- Adding uses of join keys that are covered one by one keeps a draft covered. -/
theorem addRelations (m : String) {rs ss : List RelationUse}
    (hrs : List.Forall₂ RelationUse.CoveredBy rs ss) :
    (rs.foldl (Draft.addRelation m) a).CoveredBy (ss.foldl (Draft.addRelation m) b) := by
  induction hrs generalizing a b with
  | nil => exact h
  | cons hr _ ih => exact ih (h.addRelation m hr)

/-- Adding what a module mentions keeps a draft covered. -/
theorem addModule (m : String) (es : List Event) :
    (a.addModule m es).CoveredBy (b.addModule m es) where
  modules := by simp only [Draft.addModule, h.modules]
  tables := h.tables
  columns := h.columns
  candidates := h.candidates

/-- Adding the columns of events under both policies keeps a draft covered. -/
theorem addColumns (es : List Event) :
    (a.addColumns .nearest es).CoveredBy (b.addColumns .crossProduct es) where
  modules := h.modules
  tables t := by
    -- A pair adds no table: its table is one of those that the events select.
    have hpairs : ∀ p, (∃ c, (t, c) ∈ pairs p es) → t ∈ tablesOf es :=
      fun p ⟨c, hc⟩ => mem_tablesOf_of_mem_pairs hc
    have hn := hpairs .nearest
    have hx := hpairs .crossProduct
    simp only [Draft.addColumns, ColumnSet.containsTable_foldl_insertColumn,
      ColumnSet.containsTable_foldl_insertTable, h.tables t]
    tauto
  columns t c hc := by
    simp only [Draft.addColumns, ColumnSet.mem_columnsOf_foldl_insertColumn,
      ColumnSet.mem_columnsOf_foldl_insertTable] at hc ⊢
    exact hc.imp mem_pairs_crossProduct_of_nearest (h.columns t c)
  candidates := h.candidates

/-- Reading one more file keeps a draft covered. -/
theorem add (m : Source) : (a.add .nearest m).CoveredBy (b.add .crossProduct m) :=
  ((h.addColumns _).addModule _ _).addRelations _ (relationUses_coveredBy _)

/-- Reading files under both policies keeps a draft covered. -/
theorem foldl_add (ms : List Source) :
    (ms.foldl (Draft.add .nearest) a).CoveredBy (ms.foldl (Draft.add .crossProduct) b) := by
  induction ms generalizing a b with
  | nil => exact h
  | cons m ms ih => exact ih (h.add m)

/-- The usage of a draft is covered by that of a draft that covers it. -/
theorem usage : a.usage.CoveredBy b.usage where
  modules := h.modules
  tableNames := SortedSet.ext_mem fun t => by
    rw [ColumnSet.mem_tableNames, ColumnSet.mem_tableNames]
    exact h.tables t
  columns := h.columns
  candidates := by
    show List.Forall₂ _ (a.candidates.entries.map _) (b.candidates.entries.map _)
    rw [List.forall₂_map_left_iff, List.forall₂_map_right_iff]
    exact (SortedMap.forall₂_entries h.candidates).imp fun _ _ he => he.2

end Draft.CoveredBy

/-! ## Files -/

/-- The usage under the nearest policy is covered by that under the cross product. -/
theorem extract_coveredBy (ms : List Source) :
    (extract .nearest ms).snapshot.CoveredBy (extract .crossProduct ms).snapshot :=
  (Draft.CoveredBy.empty.foldl_add ms).usage

/-- Under the cross product nothing is reported. -/
theorem diagnostics_crossProduct (ms : List Source) :
    (extract .crossProduct ms).diagnostics = [] := by
  show ms.flatMap (diagnostics .crossProduct) = []
  exact List.flatMap_eq_nil_iff.2 fun _ _ => rfl

/-! ## Runs -/

/-- What the modules of a run use under the nearest table is covered, also where none are read. -/
theorem snapshot_getD_coveredBy (modules : Option (List Source)) :
    ((modules.map (extract .nearest)).getD ⟨{}, []⟩).snapshot.CoveredBy
      ((modules.map (extract .crossProduct)).getD ⟨{}, []⟩).snapshot := by
  cases modules with
  | none => exact Draft.CoveredBy.empty.usage
  | some ms => exact extract_coveredBy ms

/-- A run that is clean under the cross product has a result under the nearest policy, which is
clean too. -/
theorem verify_nearest_of_crossProduct {t : Files.FileTree} {o : Options} {v : Verification}
    (h : verify t { o with pairing := .crossProduct } = .ok v) (hv : v.status = .clean) :
    ∃ v', verify t { o with pairing := .nearest } = .ok v' ∧ v'.status = .clean := by
  obtain ⟨f, m, ty, mo, hf, hm, hty, hmo, rfl⟩ := verify_eq_ok_iff.1 h
  refine ⟨_, verify_eq_ok_iff.2 ⟨f, m, ty, mo, hf, hm, hty, hmo, rfl⟩, ?_⟩
  have hcov := analyze_coveredBy (snapshot_getD_coveredBy (mo.map (·.sources)))
    (Migration.extract m.sources).snapshot
    (((ty.map (·.1)).map RowType.extract).getD ⟨{}, []⟩).snapshot
  exact (checkedReport_coveredBy hcov o.check f).status_eq_clean hv

/-- **The cross product over-approximates the nearest table.** For every list of files, what they
use under the nearest table is covered by what they use under the cross product, which leaves no
column unpaired. So every report has the same tables with the same drift between schema and types,
and no phantom column and no undeclared relation that the cross product does not report; a check
that is clean under the cross product is clean under the nearest table, also for a whole run. -/
theorem crossProduct_overapproximates :
    (∀ ms : List Source,
      (extract .nearest ms).snapshot.CoveredBy (extract .crossProduct ms).snapshot ∧
      (extract .crossProduct ms).diagnostics = [] ∧
      ∀ (schema : Schema) (types : RowTypes),
        let near := analyze schema types (extract .nearest ms).snapshot
        let cross := analyze schema types (extract .crossProduct ms).snapshot
        near.tables.keys = cross.tables.keys ∧ near.CoveredBy cross ∧
        ∀ k, cross.status k = .clean → near.status k = .clean) ∧
    ∀ (t : Files.FileTree) (o : Options) (v : Verification),
      verify t { o with pairing := .crossProduct } = .ok v → v.status = .clean →
      ∃ v', verify t { o with pairing := .nearest } = .ok v' ∧ v'.status = .clean := by
  refine ⟨fun ms => ⟨extract_coveredBy ms, diagnostics_crossProduct ms, ?_⟩,
    fun t o v => verify_nearest_of_crossProduct⟩
  intro schema types near cross
  have hcov : near.CoveredBy cross := analyze_coveredBy (extract_coveredBy ms) schema types
  exact ⟨hcov.keys_eq, hcov, fun k => hcov.status_eq_clean⟩

/-- A module that uses a column on each of two tables. -/
def smallModule : Source :=
  ⟨"s", "sb.from('a').eq('x', p); sb.from('b').eq('y', q);"⟩

/-- The events of the small module, in order. -/
theorem moduleEvents_smallModule :
    moduleEvents smallModule = [.table "a", .column ⟨"x", true, some "p"⟩, .table "b",
      .column ⟨"y", true, some "q"⟩] := by
  have hplaced : let text := Scan.stripComments .typeScript smallModule.text.toList
      tableEvents text ++ predicateEvents text ++ orEvents text =
        [(2, .table "a"), (27, .table "b"), (12, .column ⟨"x", true, some "p"⟩),
          (37, .column ⟨"y", true, some "q"⟩)] := by decide +kernel
  rw [moduleEvents, events, hplaced, inOrder]
  simp [List.mergeSort]

/-- The schema of a project where both tables have the columns that the module uses. -/
def smallSchema : Schema :=
  ⟨.ofList [("a", ["x", "y"]), ("b", ["x", "y"])], []⟩

/-- The migration that defines these tables. -/
def smallMigration : Source :=
  ⟨"1.sql", "CREATE TABLE a (x i, y i); CREATE TABLE b (x i, y i);"⟩

/-- A project with that migration and that module. -/
def smallProject : Files.FileTree :=
  (({} : Files.FileTree).addFile "m/1.sql" (Text.utf8 smallMigration.text.toList)).addFile
    "s/index.ts" (Text.utf8 smallModule.text.toList)

/-- The options of a run on that project, which compares its usage with its schema. -/
def smallOptions : Options :=
  { migrationsDir := "m", modulesDir := "s", check := .usage, pairing := .crossProduct }

/-- The small project has a result under its options, which is clean. -/
theorem exists_verify_smallProject :
    ∃ v, verify smallProject smallOptions = .ok v ∧ v.status = .clean := by
  refine ⟨_, verify_eq_ok_iff.2 ⟨⟨[], []⟩, ⟨[smallMigration], []⟩, none,
    some ⟨[smallModule], []⟩, rfl, ?_, rfl, ?_, rfl⟩, ?_⟩
  · decide +kernel
  · decide +kernel
  · show (checkedReport .usage ⟨[], []⟩ (analyze (Migration.extract [smallMigration]).snapshot {}
      (Draft.add .crossProduct {} smallModule).usage)).status .usage = .clean
    rw [Draft.add, moduleEvents_smallModule]
    decide +kernel

/-- The policies pair the columns of the module differently. The project is clean under the cross
product, and so under the nearest table. -/
theorem smallProject_clean :
    (extract .nearest [smallModule]).snapshot.columns ≠
      (extract .crossProduct [smallModule]).snapshot.columns ∧
    (analyze smallSchema {} (extract .crossProduct [smallModule]).snapshot).status .usage =
      .clean ∧
    (analyze smallSchema {} (extract .nearest [smallModule]).snapshot).status .usage = .clean ∧
    ∃ v, verify smallProject smallOptions = .ok v ∧ v.status = .clean ∧
      ∃ v', verify smallProject { smallOptions with pairing := .nearest } = .ok v' ∧
        v'.status = .clean := by
  have hdiffer : (Draft.add .nearest {} smallModule).columns ≠
      (Draft.add .crossProduct {} smallModule).columns := by
    rw [Draft.add, Draft.add, moduleEvents_smallModule]
    decide +kernel
  have hclean : (analyze smallSchema {} (Draft.add .crossProduct {} smallModule).usage).status
      .usage = .clean := by
    rw [Draft.add, moduleEvents_smallModule]
    decide +kernel
  obtain ⟨v, hv, hstatus⟩ := exists_verify_smallProject
  refine ⟨hdiffer, hclean, ?_, v, hv, hstatus, ?_⟩
  · exact ((crossProduct_overapproximates.1 [smallModule]).2.2 smallSchema {}).2.2 .usage hclean
  · exact crossProduct_overapproximates.2 smallProject smallOptions v hv hstatus

end SchemaDrift.Query
