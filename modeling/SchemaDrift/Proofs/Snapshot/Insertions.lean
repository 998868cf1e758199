import Mathlib.Data.List.Dedup
import SchemaDrift.Proofs.Collection.Totals
import SchemaDrift.Proofs.Snapshot.Columns
import SchemaDrift.Proofs.Text.ByteOrder

/-!
# Runs of insertions

`ColumnSet.run` makes insertions one after another and keeps what each of them answers. What one
insertion does to the set (`columnCount_perform`, `containsTable_insert`, `mem_columnsOf_insert`)
gives by induction what a run does (`columnCount_run`, `answer_run`). So the set at the end of a run
records its insertions faithfully (`Records`), whatever their order and however often they are
repeated, and two runs with the same insertions end with the same set.
-/

namespace SchemaDrift

/-- A set with one element more is greater by one if the element is new. -/
theorem SortedSet.size_insert {α : Type} [Ord α] [Std.TransOrd α] [Std.LawfulEqOrd α]
    [DecidableEq α] (s : SortedSet α) (a : α) :
    (s.insert a).size = s.size + if a ∈ s then 0 else 1 := by
  have hwith := size_filter_ne (s.insert a) a
  have hwithout := size_filter_ne s a
  have hsame : (s.insert a).filter (· != a) = s.filter (· != a) := by
    refine ext_mem fun b => ?_
    simp only [mem_filter, mem_insert, bne_iff_ne]
    grind
  rw [if_pos (mem_insert.2 (.inl rfl)), hsame] at hwith
  by_cases ha : a ∈ s
  · rw [if_pos ha] at hwithout ⊢
    omega
  · rw [if_neg ha] at hwithout ⊢
    omega

namespace ColumnSet

open Text

variable {s : ColumnSet} {is : List Insertion} {t c : String}

/-- What an insertion answers, and the set after it. The insertion of a column answers whether the
column is new. -/
def perform (s : ColumnSet) : Insertion → Option Bool × ColumnSet
  | .table t => (none, s.insertTable t)
  | .column t c => (some (s.addColumn t c).1, (s.addColumn t c).2)

/-- What insertions answer one after another, and the set at the end. -/
def run : ColumnSet → List Insertion → List (Option Bool) × ColumnSet
  | s, [] => ([], s)
  | s, i :: is => ((s.perform i).1 :: (run (s.perform i).2 is).1, (run (s.perform i).2 is).2)

/-- The insertions that a list of tables with columns stands for. -/
def insertionsOf (tables : List (String × List String)) : List Insertion :=
  tables.flatMap fun e => .table e.1 :: e.2.map (.column e.1)

/-! ## One insertion -/

/-- Performing an insertion leaves the set that it makes. -/
theorem perform_snd (s : ColumnSet) (i : Insertion) : (s.perform i).2 = s.insert i := by
  cases i <;> rfl

/-- Naming a table adds no column to the count. -/
theorem columnCount_insertTable (s : ColumnSet) (t : String) :
    (s.insertTable t).columnCount = s.columnCount := by
  have hsum := s.tables.sum_values_update t (·.getD ∅) SortedSet.size
  have hsame : ((s.tables.get? t).getD ∅).size =
      ((s.tables.get? t).map SortedSet.size).getD 0 := by
    cases s.tables.get? t <;> rfl
  rw [hsame] at hsum
  exact Nat.add_right_cancel hsum

/-- Inserting a column counts one more, unless the column was there. -/
theorem columnCount_insertColumn (s : ColumnSet) (t c : String) :
    (s.insertColumn t c).columnCount = s.columnCount + if c ∈ s.columnsOf t then 0 else 1 := by
  have hsum := s.tables.sum_values_update t (fun columns => (columns.getD ∅).insert c)
    SortedSet.size
  have hsize : (((s.tables.get? t).getD ∅).insert c).size =
      ((s.tables.get? t).map SortedSet.size).getD 0 + if c ∈ s.columnsOf t then 0 else 1 := by
    rw [SortedSet.size_insert, columnsOf, columns?]
    cases s.tables.get? t <;> rfl
  rw [hsize] at hsum
  show ((s.tables.update t _).values.map SortedSet.size).foldr (· + ·) 0 = _
  rw [columnCount]
  omega

/-- An insertion adds a column exactly if it answers that the column is new. -/
theorem columnCount_perform (s : ColumnSet) (i : Insertion) :
    (s.perform i).2.columnCount =
      s.columnCount + if (s.perform i).1 = some true then 1 else 0 := by
  cases i with
  | table t => exact columnCount_insertTable s t
  | column t c =>
    rw [perform_snd, insert, columnCount_insertColumn]
    by_cases h : c ∈ s.columnsOf t <;> simp [perform, addColumn, containsColumn, h]

/-! ## Runs -/

/-- A run of insertions leaves the set that they make one after another. -/
theorem run_snd (s : ColumnSet) (is : List Insertion) : (run s is).2 = is.foldl insert s := by
  induction is generalizing s with
  | nil => rfl
  | cons i is ih => rw [run, ih, perform_snd, List.foldl_cons]

/-- The columns that a run adds are those of which it answers that they are new. -/
theorem columnCount_run (s : ColumnSet) (is : List Insertion) :
    (run s is).2.columnCount = s.columnCount + (run s is).1.count (some true) := by
  induction is generalizing s with
  | nil => rfl
  | cons i is ih =>
    rw [run, ih, columnCount_perform, List.count_cons]
    simp only [beq_iff_eq]
    omega

/-- What an insertion of a run answers is what it answers on the set that those before it make
up. -/
theorem answer_run (s : ColumnSet) (before : List Insertion) (i : Insertion)
    (after : List Insertion) :
    (run s (before ++ i :: after)).1[before.length]? =
      some ((before.foldl insert s).perform i).1 := by
  induction before generalizing s with
  | nil => rfl
  | cons j before ih =>
    rw [List.cons_append, run, List.length_cons, List.getElem?_cons_succ, ih, perform_snd,
      List.foldl_cons]

/-- The tables behind a run are those that its insertions name. -/
theorem containsTable_run : (run ∅ is).2.containsTable t ↔ ∃ i ∈ is, i.tableName = t := by
  rw [run_snd, containsTable_foldl_insert]
  simp

/-- The columns behind a run are those that its insertions insert. -/
theorem mem_columnsOf_run : c ∈ (run ∅ is).2.columnsOf t ↔ .column t c ∈ is := by
  rw [run_snd, mem_columnsOf_foldl_insert]
  simp

/-- The set of a list of tables is made by inserting their columns one by one. -/
theorem ofList_eq_run (tables : List (String × List String)) :
    ofList tables = (run ∅ (insertionsOf tables)).2 := by
  have hmany : ∀ (s : ColumnSet) (t : String) (cs : List String),
      s.insertMany t cs = (.table t :: cs.map (.column t)).foldl insert s := by
    intro s t cs
    rw [List.foldl_cons, List.foldl_map]
    rfl
  rw [run_snd, insertionsOf, List.foldl_flatMap, ofList]
  simp only [hmany]
  rfl

/-! ## Listings -/

/-- The tables are listed with their columns. -/
theorem mem_toList {cs : List String} :
    (t, cs) ∈ s.toList ↔ s.containsTable t ∧ cs = (s.columnsOf t).toList := by
  rw [toList, List.mem_map]
  constructor
  · rintro ⟨e, he, heq⟩
    obtain ⟨rfl, rfl⟩ := Prod.mk.inj heq
    have hget : s.columns? e.1 = some e.2 := SortedMap.get?_of_mem_entries he
    refine ⟨?_, by rw [columnsOf, hget]; rfl⟩
    by_contra hno
    rw [columns?_eq_none.2 hno] at hget
    cases hget
  · rintro ⟨ht, rfl⟩
    exact ⟨(t, s.columnsOf t), SortedMap.mem_entries.2 (columns?_of_containsTable ht), rfl⟩

/-- The tables are listed in the order of their names. -/
theorem map_fst_toList (s : ColumnSet) : s.toList.map (·.1) = s.tableNames.toList := by
  rw [toList, List.map_map]
  rfl

/-- The size of a set is the number of its tables. -/
theorem size_eq_length_tableNames (s : ColumnSet) : s.size = s.tableNames.toList.length :=
  (List.length_map ..).symm

/-- Names are listed in the order of their bytes. -/
theorem pairwise_precedes (names : SortedSet String) : names.toList.Pairwise Precedes :=
  names.sorted.imp compare_eq_lt_iff_precedes.1

/-- Asking for a column tells whether it is among those of its table. -/
theorem containsColumn_iff_mem : s.containsColumn t c ↔ c ∈ s.columnsOf t :=
  decide_eq_true_iff

/-- What a run of insertions comes to: what each of them answers, and the set at the end. -/
structure Records (is : List Insertion) (answers : List (Option Bool)) (s : ColumnSet) : Prop where
  /-- The set has the tables that are named. -/
  containsTable_iff : ∀ t, s.containsTable t ↔ ∃ i ∈ is, i.tableName = t
  /-- The set has the columns that are inserted. -/
  containsColumn_iff : ∀ t c, s.containsColumn t c ↔ .column t c ∈ is
  /-- The insertion of a column answers whether it was not inserted before. -/
  answer : ∀ before t c after, is = before ++ .column t c :: after →
    answers[before.length]? = some (some (decide (.column t c ∉ before)))
  /-- There are as many columns as were new. -/
  columnCount_eq : s.columnCount = answers.count (some true)
  /-- There are as many tables as different names. -/
  size_eq : s.size = (is.map Insertion.tableName).dedup.length
  /-- The tables that are named are listed, in the order of their bytes. -/
  mem_tables : ∀ t, t ∈ s.toList.map (·.1) ↔ ∃ i ∈ is, i.tableName = t
  tables_increasing : (s.toList.map (·.1)).Pairwise Precedes
  /-- Each table is listed with the columns that are inserted, in the order of their bytes. -/
  mem_columns : ∀ e ∈ s.toList, ∀ c, c ∈ e.2 ↔ .column e.1 c ∈ is
  columns_increasing : ∀ e ∈ s.toList, e.2.Pairwise Precedes

/-- The size of a set is the number of different tables that were named. -/
theorem size_run (is : List Insertion) :
    (run ∅ is).2.size = (is.map Insertion.tableName).dedup.length := by
  rw [size_eq_length_tableNames]
  refine List.Perm.length_eq ?_
  rw [List.perm_ext_iff_of_nodup (SortedSet.nodup_toList _) (List.nodup_dedup _)]
  intro t
  rw [List.mem_dedup, List.mem_map]
  exact mem_tableNames.trans containsTable_run

/-- What a run of insertions answers and leaves is recorded as it should be. -/
theorem records_run (is : List Insertion) : Records is (run ∅ is).1 (run ∅ is).2 where
  containsTable_iff t := containsTable_run
  containsColumn_iff t c := containsColumn_iff_mem.trans mem_columnsOf_run
  answer before t c after h := by
    have hbefore : c ∈ (before.foldl insert ∅).columnsOf t ↔ .column t c ∈ before := by
      rw [← run_snd, mem_columnsOf_run]
    rw [h, answer_run, perform, addColumn, containsColumn, decide_not, decide_eq_decide.2 hbefore]
  columnCount_eq := by
    rw [columnCount_run]
    exact Nat.zero_add _
  size_eq := size_run is
  mem_tables t := by
    rw [map_fst_toList]
    exact mem_tableNames.trans containsTable_run
  tables_increasing := by
    rw [map_fst_toList]
    exact pairwise_precedes _
  mem_columns e he c := by
    rw [(mem_toList.1 he).2]
    exact mem_columnsOf_run
  columns_increasing e he := by
    rw [(mem_toList.1 he).2]
    exact pairwise_precedes _

/-- **A column set is a faithful set of tables and columns.** Every run of insertions from nothing is
recorded, in what it answers and in the set at its end. The set that is made from a list of tables
with columns is at the end of such a run. Two runs end with the same set exactly if they name the
same tables and insert the same columns. -/
theorem insertions_recorded (is : List Insertion) :
    Records is (run ∅ is).1 (run ∅ is).2 ∧
    (∀ js, (run ∅ js).2 = (run ∅ is).2 ↔ SameInsertions js is) ∧
    ∀ tables, is = insertionsOf tables → ofList tables = (run ∅ is).2 := by
  refine ⟨records_run is, fun js => ?_, ?_⟩
  · rw [run_snd, run_snd]
    exact ofInsertions_eq_iff
  · rintro tables rfl
    exact ofList_eq_run tables

/-- Tables with columns, one of the tables given twice. -/
def repeatedTables : List (String × List String) :=
  [("orders", ["total", "id"]), ("a", []), ("orders", ["id", "café"])]

/-- The same tables and columns in another order. -/
def shuffledInsertions : List Insertion :=
  [.column "orders" "café", .column "orders" "id", .table "a", .column "orders" "total"]

/-- Repeated tables in a list and repeated insertions in another order make the same set. -/
theorem repeatedTables_recorded :
    ofList repeatedTables = (run ∅ shuffledInsertions).2 ∧
      SameInsertions shuffledInsertions (insertionsOf repeatedTables) ∧
      (run ∅ (insertionsOf repeatedTables)).1[5]? = some (some false) ∧
      (ofList repeatedTables).columnCount = 3 := by
  obtain ⟨hrecords, hsame, hlist⟩ := insertions_recorded (insertionsOf repeatedTables)
  have hequal : (run ∅ shuffledInsertions).2 = (run ∅ (insertionsOf repeatedTables)).2 := by
    decide +kernel
  refine ⟨(hlist repeatedTables rfl).trans hequal.symm, (hsame _).1 hequal, ?_, ?_⟩
  · exact hrecords.answer
      [.table "orders", .column "orders" "total", .column "orders" "id", .table "a",
        .table "orders"] "orders" "id" [.column "orders" "café"] rfl
  · rw [hlist repeatedTables rfl, hrecords.columnCount_eq]
    decide +kernel

end ColumnSet

end SchemaDrift
