import SchemaDrift.Proofs.Query.CrossProduct

/-!
# Relation candidates and the columns behind them

A relation candidate never names a table on its own: its column is a column of each of its tables.
A use of a join key gives its column to the tables it is attributed to (`mem_pairs_of_relationUses`),
so reading one more file keeps a draft grounded (`Draft.Grounded.add`), and the candidates of a list
of files stand on tables that the files select (`containsTable_of_mem_candidates`).
-/

namespace SchemaDrift.Query

/-- A use of a join key is paired with each table it is attributed to. -/
theorem mem_pairs_of_relationUses {p : Pairing} {es : List Event} {r : RelationUse} {t : String}
    (hr : r ∈ relationUses p es) (ht : t ∈ r.tables) : (t, r.column) ∈ pairs p es := by
  obtain ⟨u, hu, hru⟩ := List.mem_filterMap.1 hr
  split at hru
  · cases hru
    rw [SortedSet.mem_ofList] at ht
    cases p with
    | nearest =>
      rw [Option.mem_toList] at ht
      exact List.mem_filterMap.2 ⟨u, hu, by rw [ht]; rfl⟩
    | crossProduct => exact List.mem_flatMap.2 ⟨t, ht, List.mem_map.2 ⟨u, hu, rfl⟩⟩
  · cases hru

/-- A draft whose candidates stand under their own module and column, each with a column of all its
tables. -/
structure Draft.Grounded (d : Draft) : Prop where
  key : ∀ k c, d.candidates.get? k = some c → (⟨c.module, c.column⟩ : ModuleColumn) = k
  columns : ∀ k c, d.candidates.get? k = some c → ∀ t ∈ c.tables, c.column ∈ d.columns.columnsOf t

namespace Draft.Grounded

/-- The empty draft is grounded. -/
theorem empty : ({} : Draft).Grounded where
  key _ _ h := nomatch h
  columns _ _ h := nomatch h

variable {d : Draft} (h : d.Grounded)
include h

/-- Adding columns keeps a draft grounded. -/
theorem addColumns (p : Pairing) (es : List Event) : (d.addColumns p es).Grounded where
  key := h.key
  columns k c hc t ht := by
    simp only [Draft.addColumns, ColumnSet.mem_columnsOf_foldl_insertColumn,
      ColumnSet.mem_columnsOf_foldl_insertTable]
    exact .inr (h.columns k c hc t ht)

/-- Adding what a module mentions keeps a draft grounded. -/
theorem addModule (m : String) (es : List Event) : (d.addModule m es).Grounded where
  key := h.key
  columns := h.columns

/-- Adding a use of a join key keeps a draft grounded, if the column is there for each of its
tables. -/
theorem addRelation (m : String) {r : RelationUse}
    (hr : ∀ t ∈ r.tables, r.column ∈ d.columns.columnsOf t) : (d.addRelation m r).Grounded where
  key k c hc := by
    rw [Draft.addRelation, SortedMap.get?_update] at hc
    split at hc
    · next hk =>
      subst hk
      cases hc
      split
      · rfl
      · next old hold => exact h.key _ old hold
    · exact h.key k c hc
  columns k c hc t ht := by
    rw [Draft.addRelation, SortedMap.get?_update] at hc
    split at hc
    · cases hc
      show _ ∈ d.columns.columnsOf t
      split at ht
      · exact hr t ht
      · next old hold =>
        have hcolumn : old.column = r.column := congrArg ModuleColumn.column (h.key _ old hold)
        rcases SortedSet.mem_union.1 ht with ht | ht
        · exact h.columns _ old hold t ht
        · exact hcolumn ▸ hr t ht
    · exact h.columns k c hc t ht

/-- Adding uses of join keys keeps a draft grounded, if their columns are there for their tables. -/
theorem addRelations (m : String) {rs : List RelationUse}
    (hrs : ∀ r ∈ rs, ∀ t ∈ r.tables, r.column ∈ d.columns.columnsOf t) :
    (rs.foldl (Draft.addRelation m) d).Grounded := by
  induction rs generalizing d with
  | nil => exact h
  | cons r rs ih =>
    rw [List.forall_mem_cons] at hrs
    exact ih (h.addRelation m hrs.1) hrs.2

/-- Reading one more file keeps a draft grounded. -/
theorem add (p : Pairing) (m : Source) : (d.add p m).Grounded := by
  refine ((h.addColumns p _).addModule m.name _).addRelations m.name fun r hr t ht => ?_
  show r.column ∈ (d.addColumns p (moduleEvents m)).columns.columnsOf t
  simp only [Draft.addColumns, ColumnSet.mem_columnsOf_foldl_insertColumn]
  exact .inl (mem_pairs_of_relationUses hr ht)

/-- Reading files keeps a draft grounded. -/
theorem foldl_add (p : Pairing) (ms : List Source) : (ms.foldl (Draft.add p) d).Grounded := by
  induction ms generalizing d with
  | nil => exact h
  | cons m ms ih => exact ih (h.add p m)

end Draft.Grounded

/-- A candidate's column is a column of every table that the candidate names. -/
theorem mem_columnsOf_of_mem_candidates {p : Pairing} {ms : List Source} {c : RelationCandidate}
    {t : String} (hc : c ∈ (extract p ms).snapshot.relationCandidates) (ht : t ∈ c.tables) :
    c.column ∈ (extract p ms).snapshot.columns.columnsOf t := by
  obtain ⟨k, hk⟩ := SortedMap.mem_values.1 hc
  exact (Draft.Grounded.empty.foldl_add p ms).columns k c hk t ht

/-- The tables that a candidate names are among those of the usage. -/
theorem containsTable_of_mem_candidates {p : Pairing} {ms : List Source} {c : RelationCandidate}
    {t : String} (hc : c ∈ (extract p ms).snapshot.relationCandidates) (ht : t ∈ c.tables) :
    (extract p ms).snapshot.columns.containsTable t :=
  ColumnSet.containsTable_of_mem (mem_columnsOf_of_mem_candidates hc ht)

end SchemaDrift.Query
