import SchemaDrift.Proofs.Collection.Lookup
import SchemaDrift.Snapshot.ColumnSet

/-!
# What a column set contains

A column set is known by the tables it names and the columns each of them has (`ColumnSet.ext_mem`).
`containsTable_insertTable` and the lemmas next to it say how the two insertions change both, so a
set made by insertions does not depend on their order and number (`ofInsertions_eq_iff`). `union`
joins two sets table by table.
-/

namespace SchemaDrift.ColumnSet

/-- A table without an entry is not named. -/
theorem columns?_eq_none {s : ColumnSet} {t : String} :
    s.columns? t = none ↔ ¬ s.containsTable t := by
  simp [columns?, containsTable, SortedMap.contains]

/-- A table that is not named has no columns. -/
theorem columnsOf_of_not_containsTable {s : ColumnSet} {t : String} (h : ¬ s.containsTable t) :
    s.columnsOf t = ∅ := by
  rw [columnsOf, columns?_eq_none.2 h, Option.getD_none]

/-- The columns of a table that is named are its entry. -/
theorem columns?_of_containsTable {s : ColumnSet} {t : String} (h : s.containsTable t = true) :
    s.columns? t = some (s.columnsOf t) := by
  obtain ⟨cs, hcs⟩ := Option.isSome_iff_exists.1 h
  simp [columnsOf, columns?, hcs]

/-- A table with a column is named. -/
theorem containsTable_of_mem {s : ColumnSet} {t c : String} (h : c ∈ s.columnsOf t) :
    s.containsTable t = true := by
  by_contra hn
  rw [columnsOf_of_not_containsTable hn] at h
  exact SortedSet.not_mem_empty h

/-- The names of the tables are those that the set contains. -/
theorem mem_tableNames {s : ColumnSet} {t : String} : t ∈ s.tableNames ↔ s.containsTable t :=
  SortedMap.mem_keys

/-- A table has the same entry in two sets that both name it or both do not, with the same
columns. -/
theorem columns?_congr {s s' : ColumnSet} {t : String}
    (ht : s.containsTable t ↔ s'.containsTable t)
    (hc : ∀ c, c ∈ s.columnsOf t ↔ c ∈ s'.columnsOf t) : s.columns? t = s'.columns? t := by
  by_cases hs : s.containsTable t
  · rw [columns?_of_containsTable hs, columns?_of_containsTable (ht.1 hs)]
    exact congrArg some (SortedSet.ext_mem hc)
  · have hs' : ¬ s'.containsTable t := fun h => hs (ht.2 h)
    rw [columns?_eq_none.2 hs, columns?_eq_none.2 hs']

/-- Column sets that name the same tables with the same columns are equal. -/
theorem ext_mem {s s' : ColumnSet} (ht : ∀ t, s.containsTable t ↔ s'.containsTable t)
    (hc : ∀ t c, c ∈ s.columnsOf t ↔ c ∈ s'.columnsOf t) : s = s' := by
  have h : s.tables = s'.tables := SortedMap.ext_get? fun t => columns?_congr (ht t) (hc t)
  cases s; cases s'; exact congrArg mk h

/-! ## Insertions -/

/-- The empty set has no tables. -/
@[simp] theorem not_containsTable_empty (t : String) : (∅ : ColumnSet).containsTable t = false :=
  rfl

/-- The empty set has no columns. -/
@[simp] theorem not_mem_columnsOf_empty (t c : String) : c ∉ (∅ : ColumnSet).columnsOf t :=
  SortedSet.not_mem_empty

/-- Naming a table adds that table. -/
@[simp] theorem containsTable_insertTable {s : ColumnSet} {t u : String} :
    (s.insertTable u).containsTable t ↔ t = u ∨ s.containsTable t := by
  simp only [containsTable, SortedMap.contains, insertTable, SortedMap.get?_update]
  split <;> simp_all

/-- Naming a table adds no column. -/
@[simp] theorem mem_columnsOf_insertTable {s : ColumnSet} {t u c : String} :
    c ∈ (s.insertTable u).columnsOf t ↔ c ∈ s.columnsOf t := by
  simp only [columnsOf, columns?, insertTable, SortedMap.get?_update]
  split
  · next h => rw [h]; rfl
  · rfl

/-- Inserting a column adds its table. -/
@[simp] theorem containsTable_insertColumn {s : ColumnSet} {t u d : String} :
    (s.insertColumn u d).containsTable t ↔ t = u ∨ s.containsTable t := by
  simp only [containsTable, SortedMap.contains, insertColumn, SortedMap.get?_update]
  split <;> simp_all

/-- Inserting a column adds that column to its table, and no other. -/
@[simp] theorem mem_columnsOf_insertColumn {s : ColumnSet} {t u c d : String} :
    c ∈ (s.insertColumn u d).columnsOf t ↔ t = u ∧ c = d ∨ c ∈ s.columnsOf t := by
  simp only [columnsOf, columns?, insertColumn, SortedMap.get?_update]
  split
  · next h => rw [h, Option.getD_some, SortedSet.mem_insert]; simp
  · next h => simp [h]

/-- Naming tables one after another adds these tables. -/
@[simp] theorem containsTable_foldl_insertTable {ts : List String} {s : ColumnSet} {t : String} :
    (ts.foldl insertTable s).containsTable t ↔ t ∈ ts ∨ s.containsTable t := by
  induction ts generalizing s with
  | nil => simp
  | cons u ts ih =>
    rw [List.foldl_cons, ih, containsTable_insertTable, List.mem_cons]
    grind

/-- Naming tables one after another adds no column. -/
@[simp] theorem mem_columnsOf_foldl_insertTable {ts : List String} {s : ColumnSet} {t c : String} :
    c ∈ (ts.foldl insertTable s).columnsOf t ↔ c ∈ s.columnsOf t := by
  induction ts generalizing s with
  | nil => rfl
  | cons u ts ih => rw [List.foldl_cons, ih, mem_columnsOf_insertTable]

/-- Inserting columns one after another adds their tables. -/
@[simp] theorem containsTable_foldl_insertColumn {ps : List (String × String)} {s : ColumnSet}
    {t : String} :
    (ps.foldl (fun s p => s.insertColumn p.1 p.2) s).containsTable t ↔
      (∃ c, (t, c) ∈ ps) ∨ s.containsTable t := by
  induction ps generalizing s with
  | nil => simp
  | cons p ps ih =>
    obtain ⟨u, d⟩ := p
    rw [List.foldl_cons, ih, containsTable_insertColumn]
    constructor
    · rintro (⟨c, hc⟩ | rfl | h)
      · exact .inl ⟨c, List.mem_cons_of_mem _ hc⟩
      · exact .inl ⟨d, List.mem_cons_self⟩
      · exact .inr h
    · rintro (⟨c, hc⟩ | h)
      · rcases List.mem_cons.1 hc with he | hc
        · cases he; exact .inr (.inl rfl)
        · exact .inl ⟨c, hc⟩
      · exact .inr (.inr h)

/-- Inserting columns one after another adds these columns, each to its table. -/
@[simp] theorem mem_columnsOf_foldl_insertColumn {ps : List (String × String)} {s : ColumnSet}
    {t c : String} :
    c ∈ (ps.foldl (fun s p => s.insertColumn p.1 p.2) s).columnsOf t ↔
      (t, c) ∈ ps ∨ c ∈ s.columnsOf t := by
  induction ps generalizing s with
  | nil => simp
  | cons p ps ih =>
    rw [List.foldl_cons, ih, mem_columnsOf_insertColumn, List.mem_cons, Prod.ext_iff]
    grind

/-- Inserting the columns of a table adds the table, even if there are none. -/
@[simp] theorem containsTable_insertMany {s : ColumnSet} {t u : String} {ds : List String} :
    (s.insertMany u ds).containsTable t ↔ t = u ∨ s.containsTable t := by
  rw [insertMany, ← List.foldl_map (f := Prod.mk u) (g := fun s p => insertColumn s p.1 p.2),
    containsTable_foldl_insertColumn, containsTable_insertTable]
  constructor
  · rintro (⟨c, hc⟩ | h)
    · obtain ⟨d, -, he⟩ := List.mem_map.1 hc
      exact .inl (Prod.ext_iff.1 he).1.symm
    · exact h
  · exact .inr

/-- Inserting the columns of a table adds these columns. -/
@[simp] theorem mem_columnsOf_insertMany {s : ColumnSet} {t u c : String} {ds : List String} :
    c ∈ (s.insertMany u ds).columnsOf t ↔ t = u ∧ c ∈ ds ∨ c ∈ s.columnsOf t := by
  rw [insertMany, ← List.foldl_map (f := Prod.mk u) (g := fun s p => insertColumn s p.1 p.2),
    mem_columnsOf_foldl_insertColumn, mem_columnsOf_insertTable, List.mem_map]
  constructor
  · rintro (⟨d, hd, he⟩ | h)
    · obtain ⟨rfl, rfl⟩ := Prod.ext_iff.1 he
      exact .inl ⟨rfl, hd⟩
    · exact .inr h
  · rintro (⟨rfl, hc⟩ | h)
    · exact .inl ⟨c, hc, rfl⟩
    · exact .inr h

/-! ## Runs of insertions -/

/-- One insertion: of a table, or of a column of a table. -/
inductive Insertion
  | table (name : String)
  | column (table name : String)
deriving DecidableEq

/-- The table that an insertion names. -/
def Insertion.tableName : Insertion → String
  | table t => t
  | column t _ => t

/-- The set after an insertion. -/
def insert (s : ColumnSet) : Insertion → ColumnSet
  | .table t => s.insertTable t
  | .column t c => s.insertColumn t c

/-- The set that insertions make up from nothing, in the order given. -/
def ofInsertions (is : List Insertion) : ColumnSet :=
  is.foldl insert ∅

/-- An insertion adds the table that it names. -/
theorem containsTable_insert {s : ColumnSet} {i : Insertion} {t : String} :
    (s.insert i).containsTable t ↔ i.tableName = t ∨ s.containsTable t := by
  cases i with
  | table u => rw [insert, containsTable_insertTable, Insertion.tableName, @eq_comm _ u]
  | column u d => rw [insert, containsTable_insertColumn, Insertion.tableName, @eq_comm _ u]

/-- An insertion adds the column that it inserts, and no other. -/
theorem mem_columnsOf_insert {s : ColumnSet} {i : Insertion} {t c : String} :
    c ∈ (s.insert i).columnsOf t ↔ i = .column t c ∨ c ∈ s.columnsOf t := by
  cases i with
  | table u => simp [insert]
  | column u d =>
    rw [insert, mem_columnsOf_insertColumn, Insertion.column.injEq, @eq_comm _ u, @eq_comm _ d]

/-- Insertions add the tables that they name. -/
theorem containsTable_foldl_insert {is : List Insertion} {s : ColumnSet} {t : String} :
    (is.foldl insert s).containsTable t ↔ (∃ i ∈ is, i.tableName = t) ∨ s.containsTable t := by
  induction is generalizing s with
  | nil => simp
  | cons i is ih =>
    rw [List.foldl_cons, ih, containsTable_insert, List.exists_mem_cons_iff]
    grind

/-- Insertions add the columns that they insert. -/
theorem mem_columnsOf_foldl_insert {is : List Insertion} {s : ColumnSet} {t c : String} :
    c ∈ (is.foldl insert s).columnsOf t ↔ .column t c ∈ is ∨ c ∈ s.columnsOf t := by
  induction is generalizing s with
  | nil => simp
  | cons i is ih =>
    rw [List.foldl_cons, ih, mem_columnsOf_insert, List.mem_cons]
    grind

/-- Two runs of insertions name the same tables and insert the same columns, in whatever order and
however often. -/
structure SameInsertions (is js : List Insertion) : Prop where
  tables : ∀ t, (∃ i ∈ is, i.tableName = t) ↔ ∃ j ∈ js, j.tableName = t
  columns : ∀ t c, .column t c ∈ is ↔ .column t c ∈ js

/-- Insertions make the same set exactly if they name the same tables and insert the same
columns. -/
theorem ofInsertions_eq_iff {is js : List Insertion} :
    ofInsertions is = ofInsertions js ↔ SameInsertions is js := by
  have htable : ∀ is t, (ofInsertions is).containsTable t ↔ ∃ i ∈ is, i.tableName = t :=
    fun is t => by simp [ofInsertions, containsTable_foldl_insert]
  have hcolumn : ∀ is t c, c ∈ (ofInsertions is).columnsOf t ↔ .column t c ∈ is :=
    fun is t c => by simp [ofInsertions, mem_columnsOf_foldl_insert]
  constructor
  · intro h
    refine ⟨fun t => ?_, fun t c => ?_⟩
    · rw [← htable, ← htable, h]
    · rw [← hcolumn, ← hcolumn, h]
  · rintro ⟨ht, hc⟩
    refine ext_mem (fun t => ?_) fun t c => ?_
    · rw [htable, htable, ht]
    · rw [hcolumn, hcolumn, hc]

/-! ## Union -/

/-- The tables of either set, each with the columns it has in either. -/
def union (s s' : ColumnSet) : ColumnSet :=
  ⟨.ofSet (fun t => (s.columnsOf t).union (s'.columnsOf t)) (s.tableNames.union s'.tableNames)⟩

/-- The tables of a union are those of either set. -/
@[simp] theorem containsTable_union {s s' : ColumnSet} {t : String} :
    (s.union s').containsTable t ↔ s.containsTable t ∨ s'.containsTable t := by
  rw [← mem_tableNames, ← mem_tableNames, ← mem_tableNames]
  show t ∈ (SortedMap.ofSet _ _).keys ↔ _
  rw [SortedMap.keys_ofSet, SortedSet.mem_union]

/-- The columns of a union are those of either set. -/
@[simp] theorem mem_columnsOf_union {s s' : ColumnSet} {t c : String} :
    c ∈ (s.union s').columnsOf t ↔ c ∈ s.columnsOf t ∨ c ∈ s'.columnsOf t := by
  by_cases h : (s.union s').containsTable t
  · have hm : t ∈ s.tableNames.union s'.tableNames := by
      rw [SortedSet.mem_union, mem_tableNames, mem_tableNames]
      exact containsTable_union.1 h
    have hg : (s.union s').columns? t = some ((s.columnsOf t).union (s'.columnsOf t)) := by
      show (SortedMap.ofSet _ _).get? t = _
      rw [SortedMap.get?_ofSet, if_pos hm]
    rw [columnsOf, hg, Option.getD_some, SortedSet.mem_union]
  · have hs : ¬ (s.containsTable t ∨ s'.containsTable t) := fun hm => h (containsTable_union.2 hm)
    constructor
    · exact fun hc => absurd (containsTable_of_mem hc) h
    · exact fun hc => absurd (hc.imp containsTable_of_mem containsTable_of_mem) hs

/-- The empty set is neutral in a union. -/
theorem union_empty (s : ColumnSet) : s.union ∅ = s :=
  ext_mem (fun t => by simp) fun t c => by simp

/-- Joining column sets is associative. -/
theorem union_assoc (s s' s'' : ColumnSet) : (s.union s').union s'' = s.union (s'.union s'') :=
  ext_mem (fun t => by simp only [containsTable_union, or_assoc])
    fun t c => by simp only [mem_columnsOf_union, or_assoc]

/-- The order in which two column sets are joined does not matter. -/
theorem union_comm (s s' : ColumnSet) : s.union s' = s'.union s :=
  ext_mem (fun t => by rw [containsTable_union, containsTable_union, or_comm])
    fun t c => by rw [mem_columnsOf_union, mem_columnsOf_union, or_comm]

end SchemaDrift.ColumnSet
