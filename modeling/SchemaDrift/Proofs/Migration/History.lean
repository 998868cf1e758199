import Mathlib.Data.List.Induction
import SchemaDrift.Migration.Extract
import SchemaDrift.Proofs.Snapshot.Columns
import SchemaDrift.Snapshot.Json

/-!
# Histories of migrations

A schema is what the facts of a history add up to, so it is known by the facts: `Schema.record`
adds what one fact says (`containsTable_record` and the lemmas next to it), and a run of facts adds
what its members say (`containsTable_foldl_record` and so on). A foreign key keeps the place where
it was first declared (`foreignKeys_foldl_record`).

From this, extraction takes the join of two histories to the join of their schemas
(`Migration.extract_append_history`): nothing is lost, the order of the files only matters for the
order of the foreign keys, and running a history twice adds nothing.
-/

namespace SchemaDrift

open Migration

namespace Schema

/-! ## One fact -/

/-- A fact names a table if it is about that table or about a column of it. -/
theorem containsTable_record {s : Schema} {f : Fact} {t : String} :
    (s.record f).columns.containsTable t ↔
      s.columns.containsTable t ∨ f = .table t ∨ ∃ c, f = .column t c := by
  cases f with
  | table u => simp only [record, ColumnSet.containsTable_insertTable]; grind
  | column u d =>
    simp only [record, ColumnSet.containsTable_insertColumn]
    constructor
    · rintro (rfl | h)
      · exact .inr (.inr ⟨d, rfl⟩)
      · exact .inl h
    · rintro (h | h | ⟨c, h⟩)
      · exact .inr h
      · cases h
      · cases h; exact .inl rfl
  | foreignKey k => simp only [record, addForeignKey]; split <;> simp
  | notice n => simp [record]

/-- Recording a fact adds the column that it names, and no other. -/
theorem mem_columnsOf_record {s : Schema} {f : Fact} {t c : String} :
    c ∈ (s.record f).columns.columnsOf t ↔ c ∈ s.columns.columnsOf t ∨ f = .column t c := by
  cases f with
  | table u => simp [record]
  | column u d => simp only [record, ColumnSet.mem_columnsOf_insertColumn]; grind
  | foreignKey k => simp only [record, addForeignKey]; split <;> simp
  | notice n => simp [record]

/-- A fact declares a foreign key behind those that are declared, unless it is one of them. -/
theorem foreignKeys_record (s : Schema) (f : Fact) :
    (s.record f).foreignKeys =
      match f with
      | .foreignKey k => if k ∈ s.foreignKeys then s.foreignKeys else s.foreignKeys ++ [k]
      | _ => s.foreignKeys := by
  cases f with
  | table u | column u d | notice n => rfl
  | foreignKey k => simp only [record, addForeignKey]; split <;> rfl

/-! ## A run of facts -/

/-- Facts are recorded one after another, the last one on the schema of those before. -/
theorem ofFacts_concat (fs : List Fact) (f : Fact) :
    ofFacts (fs ++ [f]) = (ofFacts fs).record f :=
  List.foldl_concat ..

/-- A schema has the tables that it had and those that the recorded facts name. -/
theorem containsTable_foldl_record {fs : List Fact} {s : Schema} {t : String} :
    (fs.foldl record s).columns.containsTable t ↔
      s.columns.containsTable t ∨ .table t ∈ fs ∨ ∃ c, .column t c ∈ fs := by
  induction fs generalizing s with
  | nil => simp
  | cons f fs ih =>
    rw [List.foldl_cons, ih, containsTable_record]
    simp only [List.mem_cons]
    grind

/-- A schema has the columns that it had and those that the recorded facts name. -/
theorem mem_columnsOf_foldl_record {fs : List Fact} {s : Schema} {t c : String} :
    c ∈ (fs.foldl record s).columns.columnsOf t ↔
      c ∈ s.columns.columnsOf t ∨ .column t c ∈ fs := by
  induction fs generalizing s with
  | nil => simp
  | cons f fs ih =>
    rw [List.foldl_cons, ih, mem_columnsOf_record]
    simp only [List.mem_cons]
    grind

/-- From a schema on, facts declare the keys that they declare by themselves, less those that the
schema has. -/
theorem foreignKeys_foldl_record (s : Schema) (fs : List Fact) :
    (fs.foldl record s).foreignKeys =
      s.foreignKeys ++ (ofFacts fs).foreignKeys.filter (· ∉ s.foreignKeys) := by
  -- The key that comes last is looked up among all keys before it, so facts are taken off the end.
  induction fs using List.reverseRecOn with
  | nil => simp [ofFacts]
  | append_singleton fs f ih =>
    rw [List.foldl_append, List.foldl_cons, List.foldl_nil, ofFacts_concat, foreignKeys_record,
      foreignKeys_record, ih]
    cases f with
    | table u | column u d | notice n => rfl
    | foreignKey k =>
      by_cases hs : k ∈ s.foreignKeys
      · by_cases hf : k ∈ (ofFacts fs).foreignKeys <;> simp [hs, hf]
      · by_cases hf : k ∈ (ofFacts fs).foreignKeys <;> simp [hs, hf]

/-- The foreign keys of facts are those that the facts name. -/
theorem mem_foreignKeys_ofFacts {fs : List Fact} {k : ForeignKey} :
    k ∈ (ofFacts fs).foreignKeys ↔ .foreignKey k ∈ fs := by
  induction fs using List.reverseRecOn with
  | nil => simp [ofFacts]
  | append_singleton fs f ih =>
    rw [ofFacts_concat, foreignKeys_record, List.mem_append, List.mem_singleton, ← ih]
    cases f with
    | table u | column u d | notice n => simp
    | foreignKey j =>
      by_cases hj : j ∈ (ofFacts fs).foreignKeys
      · simp only [hj, if_true, Fact.foreignKey.injEq]
        exact ⟨.inl, fun h => h.elim id fun h => h ▸ hj⟩
      · simp [hj]

/-- No foreign key is recorded twice. -/
theorem nodup_foreignKeys_ofFacts (fs : List Fact) : (ofFacts fs).foreignKeys.Nodup := by
  induction fs using List.reverseRecOn with
  | nil => exact .nil
  | append_singleton fs f ih =>
    rw [ofFacts_concat, foreignKeys_record]
    cases f with
    | table u | column u d | notice n => exact ih
    | foreignKey k =>
      by_cases hk : k ∈ (ofFacts fs).foreignKeys
      · simpa [hk] using ih
      · simp only [hk, if_false]
        refine List.nodup_append.2 ⟨ih, by simp, fun a ha b hb hab => ?_⟩
        rw [List.mem_singleton] at hb
        exact hk (hb ▸ hab ▸ ha)

/-- What the facts of a history say, table by table. -/
theorem containsTable_ofFacts {fs : List Fact} {t : String} :
    (ofFacts fs).columns.containsTable t ↔ .table t ∈ fs ∨ ∃ c, .column t c ∈ fs := by
  rw [ofFacts, containsTable_foldl_record]
  simp

/-- The columns of facts are those that the facts name. -/
theorem mem_columnsOf_ofFacts {fs : List Fact} {t c : String} :
    c ∈ (ofFacts fs).columns.columnsOf t ↔ .column t c ∈ fs := by
  rw [ofFacts, mem_columnsOf_foldl_record]
  simp

/-- Facts that are joined add up to the columns of both. -/
theorem columns_ofFacts_append (fs gs : List Fact) :
    (ofFacts (fs ++ gs)).columns = (ofFacts fs).columns.union (ofFacts gs).columns := by
  refine ColumnSet.ext_mem (fun t => ?_) fun t c => ?_
  · rw [ColumnSet.containsTable_union, containsTable_ofFacts, containsTable_ofFacts,
      containsTable_ofFacts]
    simp only [List.mem_append]
    grind
  · rw [ColumnSet.mem_columnsOf_union, mem_columnsOf_ofFacts, mem_columnsOf_ofFacts,
      mem_columnsOf_ofFacts, List.mem_append]

/-- Later facts add the foreign keys that were not there, behind those that were. -/
theorem foreignKeys_ofFacts_append (fs gs : List Fact) :
    (ofFacts (fs ++ gs)).foreignKeys =
      (ofFacts fs).foreignKeys ++
        (ofFacts gs).foreignKeys.filter (· ∉ (ofFacts fs).foreignKeys) := by
  have h : ofFacts (fs ++ gs) = gs.foldl record (ofFacts fs) := List.foldl_append
  rw [h, foreignKeys_foldl_record]

/-- The columns that facts add up to do not depend on the order of the facts. -/
theorem columns_ofFacts_perm {fs gs : List Fact} (h : fs.Perm gs) :
    (ofFacts fs).columns = (ofFacts gs).columns := by
  refine ColumnSet.ext_mem (fun t => ?_) fun t c => ?_
  · rw [containsTable_ofFacts, containsTable_ofFacts]
    simp only [h.mem_iff]
  · rw [mem_columnsOf_ofFacts, mem_columnsOf_ofFacts, h.mem_iff]

/-- A schema that has whatever another has, with the foreign keys of the other in front. -/
structure Extends (s s' : Schema) : Prop where
  tables : ∀ t, s.columns.containsTable t → s'.columns.containsTable t
  columns : ∀ t c, s.columns.containsColumn t c → s'.columns.containsColumn t c
  foreignKeys : s.foreignKeys <+: s'.foreignKeys

/-- The schema of more facts extends that of fewer. -/
theorem extends_ofFacts_append (fs gs : List Fact) :
    (ofFacts fs).Extends (ofFacts (fs ++ gs)) where
  tables t h := by
    rw [columns_ofFacts_append]
    exact ColumnSet.containsTable_union.2 (.inl h)
  columns t c h := by
    rw [columns_ofFacts_append]
    exact decide_eq_true (ColumnSet.mem_columnsOf_union.2 (.inl (of_decide_eq_true h)))
  foreignKeys := foreignKeys_ofFacts_append fs gs ▸ List.prefix_append ..

/-- Facts that are said twice add up to what they add up to once. -/
theorem ofFacts_append_self (fs : List Fact) : ofFacts (fs ++ fs) = ofFacts fs := by
  have hc : (ofFacts (fs ++ fs)).columns = (ofFacts fs).columns := by
    rw [columns_ofFacts_append]
    exact ColumnSet.ext_mem (fun t => by simp) fun t c => by simp
  have hk : (ofFacts (fs ++ fs)).foreignKeys = (ofFacts fs).foreignKeys := by
    rw [foreignKeys_ofFacts_append]
    simp
  calc ofFacts (fs ++ fs)
      = ⟨(ofFacts (fs ++ fs)).columns, (ofFacts (fs ++ fs)).foreignKeys⟩ := rfl
    _ = ofFacts fs := by rw [hc, hk]

end Schema

namespace Migration

/-! ## Histories -/

/-- The schema of two histories is built from the facts of the first and then of the second. -/
theorem snapshot_extract_append (ms ms' : List Source) :
    (extract (ms ++ ms')).snapshot = Schema.ofFacts (ms.flatMap facts ++ ms'.flatMap facts) := by
  simp [extract]

/-- **Extraction takes histories to schemas.** The schema of two histories, one after the other,
joins the columns of both table by table and has the foreign keys of the first followed by the new
ones of the second; what was skipped is listed one after the other. So no foreign key stands twice,
a later history takes nothing back, the order of the files changes neither the columns nor which
foreign keys there are, and a history that is run twice gives the same schema. -/
theorem extract_append_history (ms ms' : List Source) :
    (extract (ms ++ ms')).snapshot.columns =
      (extract ms).snapshot.columns.union (extract ms').snapshot.columns ∧
    (extract (ms ++ ms')).snapshot.foreignKeys =
      (extract ms).snapshot.foreignKeys ++
        (extract ms').snapshot.foreignKeys.filter (· ∉ (extract ms).snapshot.foreignKeys) ∧
    (extract (ms ++ ms')).diagnostics = (extract ms).diagnostics ++ (extract ms').diagnostics ∧
    (extract ms).snapshot.foreignKeys.Nodup ∧
    (extract ms).snapshot.Extends (extract (ms ++ ms')).snapshot ∧
    (∀ ps : List Source, ps.Perm ms →
      (extract ps).snapshot.columns = (extract ms).snapshot.columns ∧
      ∀ k, k ∈ (extract ps).snapshot.foreignKeys ↔ k ∈ (extract ms).snapshot.foreignKeys) ∧
    (extract (ms ++ ms)).snapshot = (extract ms).snapshot ∧
    (extract (ms ++ ms)).snapshot.fingerprint = (extract ms).snapshot.fingerprint := by
  have hself : (extract (ms ++ ms)).snapshot = (extract ms).snapshot := by
    rw [snapshot_extract_append]
    exact Schema.ofFacts_append_self _
  refine ⟨?_, ?_, ?_, Schema.nodup_foreignKeys_ofFacts _, ?_, ?_, hself, by rw [hself]⟩
  · rw [snapshot_extract_append]
    exact Schema.columns_ofFacts_append _ _
  · rw [snapshot_extract_append]
    exact Schema.foreignKeys_ofFacts_append _ _
  · exact List.flatMap_append
  · rw [snapshot_extract_append]
    exact Schema.extends_ofFacts_append _ _
  · intro ps hp
    have hfacts : (ps.flatMap facts).Perm (ms.flatMap facts) := hp.flatMap_right facts
    refine ⟨Schema.columns_ofFacts_perm hfacts, fun k => ?_⟩
    exact Schema.mem_foreignKeys_ofFacts.trans
      (hfacts.mem_iff.trans Schema.mem_foreignKeys_ofFacts.symm)

/-- Two files in the other order give the same columns and foreign keys. -/
theorem extract_swapped :
    let a : Source := ⟨"1.sql", "CREATE TABLE a (b c REFERENCES d(e));"⟩
    let b : Source := ⟨"2.sql", "DROP TABLE a;"⟩
    [b, a].Perm [a, b] ∧
    (extract [b, a]).snapshot.columns = (extract [a, b]).snapshot.columns ∧
    ∀ k, k ∈ (extract [b, a]).snapshot.foreignKeys ↔ k ∈ (extract [a, b]).snapshot.foreignKeys := by
  intro a b
  have hp : [b, a].Perm [a, b] := .swap a b []
  exact ⟨hp, (extract_append_history [a, b] []).2.2.2.2.2.1 _ hp⟩

end Migration

end SchemaDrift
