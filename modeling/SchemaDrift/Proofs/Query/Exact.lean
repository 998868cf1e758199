import SchemaDrift.Proofs.Collection.Lookup
import SchemaDrift.Proofs.Query.Calls
import SchemaDrift.Proofs.Snapshot.Columns

/-!
# Exactness on chains of calls

In a module of chains every column is used behind a selection, so its uses are those of the chains,
each attributed to the table of its own chain (`usesOf_chains`). The uses of join keys make up the
relation candidates: `Draft.Holds` says what is known of the candidates after some of these uses, and
each further use keeps it (`Draft.Holds.addRelation`). So what is extracted is what the chains
mention, and nothing is reported (`extract_chains_exact`).
-/

namespace SchemaDrift.Query

/-! ## Relation candidates -/

/-- The first name that a column is compared with. -/
def firstArgument (rs : List RelationUse) (column : String) : Option String :=
  rs.findSome? fun r => if r.column = column then r.argument else none

/-- A candidate that joins the uses of its column. -/
structure Joins (module : String) (rs : List RelationUse) (c : RelationCandidate) : Prop where
  module : c.module = module
  used : ∃ r ∈ rs, r.column = c.column
  tables : ∀ t, t ∈ c.tables ↔ ∃ r ∈ rs, r.column = c.column ∧ t ∈ r.tables
  argument : c.argument = firstArgument rs c.column

/-- A draft whose candidates are those of given uses in one module. -/
structure Draft.Holds (module : String) (rs : List RelationUse) (d : Draft) : Prop where
  joins : ∀ k c, d.candidates.get? k = some c → k = ⟨module, c.column⟩ ∧ Joins module rs c
  found : ∀ r ∈ rs, (d.candidates.get? ⟨module, r.column⟩).isSome

/-- The first name in two lists of uses is that of the first list, if it has one. -/
theorem firstArgument_append (rs rs' : List RelationUse) (column : String) :
    firstArgument (rs ++ rs') column =
      (firstArgument rs column).or (firstArgument rs' column) :=
  List.findSome?_append

/-- The first name of a single use is its own, if it is of the column. -/
theorem firstArgument_singleton (r : RelationUse) (column : String) :
    firstArgument [r] column = if r.column = column then r.argument else none := by
  simp only [firstArgument, List.findSome?_cons, List.findSome?_nil]
  split <;> simp_all

/-- Uses of other columns have no name for this one. -/
theorem firstArgument_of_forall_ne {rs : List RelationUse} {column : String}
    (h : ∀ r ∈ rs, r.column ≠ column) : firstArgument rs column = none := by
  refine List.findSome?_eq_none_iff.2 fun r hr => ?_
  rw [if_neg (h r hr)]

variable {module : String} {rs : List RelationUse}

/-- A use of another column does not change what a candidate joins. -/
theorem Joins.append_other {c : RelationCandidate} (h : Joins module rs c) {r : RelationUse}
    (hne : r.column ≠ c.column) : Joins module (rs ++ [r]) c where
  module := h.module
  used := by
    obtain ⟨r', hr', hcolumn⟩ := h.used
    exact ⟨r', List.mem_append_left _ hr', hcolumn⟩
  tables t := by
    simp only [h.tables t, List.mem_append, List.mem_singleton]
    constructor
    · rintro ⟨r', hr', hcolumn, ht⟩
      exact ⟨r', .inl hr', hcolumn, ht⟩
    · rintro ⟨r', hr' | rfl, hcolumn, ht⟩
      · exact ⟨r', hr', hcolumn, ht⟩
      · exact absurd hcolumn hne
  argument := by
    rw [firstArgument_append, firstArgument_singleton, if_neg hne, Option.or_none, h.argument]

/-- A further use of its column joins a candidate. -/
theorem Joins.append_use {c : RelationCandidate} (h : Joins module rs c) {r : RelationUse}
    (hcolumn : r.column = c.column) :
    Joins module (rs ++ [r])
      { c with tables := c.tables.union r.tables, argument := c.argument.or r.argument } where
  module := h.module
  used := ⟨r, List.mem_append_right _ (List.mem_singleton_self r), hcolumn⟩
  tables t := by
    simp only [SortedSet.mem_union, h.tables t, List.mem_append, List.mem_singleton]
    constructor
    · rintro (⟨r', hr', hc, ht⟩ | ht)
      · exact ⟨r', .inl hr', hc, ht⟩
      · exact ⟨r, .inr rfl, hcolumn, ht⟩
    · rintro ⟨r', hr' | rfl, hc, ht⟩
      · exact .inl ⟨r', hr', hc, ht⟩
      · exact .inr ht
  argument := by
    rw [firstArgument_append, firstArgument_singleton, if_pos hcolumn, h.argument]

/-- The first use of a column begins a candidate. -/
theorem joins_first {r : RelationUse} (hnew : ∀ r' ∈ rs, r'.column ≠ r.column) :
    Joins module (rs ++ [r]) ⟨module, r.column, r.tables, r.argument⟩ where
  module := rfl
  used := ⟨r, List.mem_append_right _ (List.mem_singleton_self r), rfl⟩
  tables t := by
    simp only [List.mem_append, List.mem_singleton]
    constructor
    · intro ht
      exact ⟨r, .inr rfl, rfl, ht⟩
    · rintro ⟨r', hr' | rfl, hc, ht⟩
      · exact absurd hc (hnew r' hr')
      · exact ht
  argument := by
    rw [firstArgument_append, firstArgument_of_forall_ne hnew, Option.none_or,
      firstArgument_singleton, if_pos rfl]

/-- Uses of join keys change the candidates and nothing else. -/
theorem Draft.foldl_addRelation_frame (d : Draft) :
    (rs.foldl (Draft.addRelation module) d).columns = d.columns ∧
      (rs.foldl (Draft.addRelation module) d).modules = d.modules := by
  induction rs generalizing d with
  | nil => exact ⟨rfl, rfl⟩
  | cons r rs ih => exact ih (d.addRelation module r)

/-- The columns of a draft with one more file. -/
theorem Draft.columns_add (d : Draft) (p : Pairing) (m : Source) :
    (d.add p m).columns = (d.addColumns p (moduleEvents m)).columns :=
  (foldl_addRelation_frame _).1

/-- The modules of a draft with one more file. -/
theorem Draft.modules_add (d : Draft) (p : Pairing) (m : Source) :
    (d.add p m).modules = (d.addModule m.name (moduleEvents m)).modules :=
  (foldl_addRelation_frame _).2

namespace Draft.Holds

/-- A draft without candidates holds no uses. -/
theorem empty {d : Draft} (h : d.candidates = ∅) : d.Holds module [] where
  joins k c hc := by
    rw [h] at hc
    cases hc
  found := List.forall_mem_nil _

/-- A draft with one more use holds that use too. -/
theorem addRelation {d : Draft} (h : d.Holds module rs) (r : RelationUse) :
    (d.addRelation module r).Holds module (rs ++ [r]) where
  joins k c hc := by
    rw [Draft.addRelation, SortedMap.get?_update] at hc
    split at hc
    · next hk =>
      subst hk
      cases hc
      split
      · next hnone =>
        refine ⟨rfl, joins_first fun r' hr' hcolumn => ?_⟩
        have hsome := h.found r' hr'
        rw [hcolumn, hnone] at hsome
        cases hsome
      · next old hold =>
        obtain ⟨hkey, hjoins⟩ := h.joins _ old hold
        exact ⟨hkey, hjoins.append_use (congrArg ModuleColumn.column hkey)⟩
    · next hk =>
      obtain ⟨rfl, hjoins⟩ := h.joins k c hc
      refine ⟨rfl, hjoins.append_other fun hcolumn => hk ?_⟩
      rw [hcolumn]
  found r' hr' := by
    rw [Draft.addRelation, SortedMap.get?_update]
    split
    · rfl
    · next hk =>
      rcases List.mem_append.1 hr' with hr' | hr'
      · exact h.found r' hr'
      · obtain rfl := List.mem_singleton.1 hr'
        exact absurd rfl hk

/-- A draft with more uses holds these too. -/
theorem foldl_addRelation {d : Draft} (h : d.Holds module rs) (rs' : List RelationUse) :
    (rs'.foldl (Draft.addRelation module) d).Holds module (rs ++ rs') := by
  induction rs' generalizing d rs with
  | nil => rwa [List.append_nil]
  | cons r rs' ih =>
    have hnext := ih (h.addRelation r)
    rwa [List.append_assoc] at hnext

/-- The candidates are exactly those that join the uses of their columns. -/
theorem mem_values {d : Draft} (h : d.Holds module rs) {c : RelationCandidate} :
    c ∈ d.candidates.values ↔ Joins module rs c := by
  rw [SortedMap.mem_values]
  constructor
  · rintro ⟨k, hk⟩
    exact (h.joins k c hk).2
  · intro hc
    obtain ⟨r, hr, hcolumn⟩ := hc.used
    obtain ⟨c', hc'⟩ := Option.isSome_iff_exists.1 (h.found r hr)
    obtain ⟨hkey, hjoins⟩ := h.joins _ c' hc'
    have hsame : c'.column = c.column :=
      (congrArg ModuleColumn.column hkey).symm.trans hcolumn
    have htables : c'.tables = c.tables := by
      refine SortedSet.ext_mem fun t => ?_
      rw [hjoins.tables, hc.tables, hsame]
    have hargument : c'.argument = c.argument := by
      rw [hjoins.argument, hc.argument, hsame]
    have heq : c' = c := by
      cases c'
      cases c
      have hmodule := hjoins.module.trans hc.module.symm
      simp only at hsame htables hargument hmodule
      subst hsame htables hargument hmodule
      rfl
    exact ⟨_, heq ▸ hc'⟩

/-- No column has two candidates. -/
theorem nodup_columns {d : Draft} (h : d.Holds module rs) :
    (d.candidates.values.map (·.column)).Nodup := by
  have hcolumns : d.candidates.values.map (·.column) =
      (d.candidates.entries.map (·.1)).map ModuleColumn.column := by
    rw [SortedMap.values, List.map_map, List.map_map]
    refine List.map_congr_left fun e he => ?_
    exact (congrArg ModuleColumn.column
      (h.joins e.1 e.2 (SortedMap.get?_of_mem_entries he)).1).symm
  rw [hcolumns]
  refine List.Nodup.map_on (fun a ha b hb hab => ?_) d.candidates.nodup_keys
  obtain ⟨e, he, rfl⟩ := List.mem_map.1 ha
  obtain ⟨e', he', rfl⟩ := List.mem_map.1 hb
  rw [(h.joins e.1 e.2 (SortedMap.get?_of_mem_entries he)).1] at hab ⊢
  rw [(h.joins e'.1 e'.2 (SortedMap.get?_of_mem_entries he')).1] at hab ⊢
  exact congrArg (ModuleColumn.mk module) hab

end Draft.Holds

end SchemaDrift.Query

namespace SchemaDrift.Chain

open Text Scan Query

/-! ## Uses of columns -/

/-- The events of a call are the columns that it uses. -/
theorem events_call (c : Call) : (Part.call c).events = (usesOfCall c).map .column := by
  cases c with
  | compare method column value => rfl
  | anyOf cs => rfl

/-- The events of a chain are its table and then the columns that it uses. -/
theorem events_parts_chain (q : Chain) :
    q.parts.flatMap Part.events = .table q.table.text :: q.uses.map .column := by
  have hcalls : (q.calls.map Part.call).flatMap Part.events = q.uses.map .column := by
    rw [List.flatMap_map, uses, List.map_flatMap]
    simp only [events_call]
  rw [parts, List.flatMap_cons, List.flatMap_cons, List.flatMap_append, hcalls]
  exact congrArg (Event.table q.table.text :: ·) (List.append_nil _)

/-- The events of a module: each chain selects its table and then uses its columns. -/
theorem moduleEvents_render (module : String) (qs : List Chain) :
    moduleEvents ⟨module, String.ofList (render qs)⟩ =
      qs.flatMap fun q => .table q.table.text :: q.uses.map .column := by
  rw [moduleEvents, String.toList_ofList, stripComments_render, render, events_parts,
    List.flatMap_assoc]
  simp only [events_parts_chain]

/-- The tables of two lists of events are those of the first and then those of the second. -/
theorem tablesOf_append (es es' : List Event) :
    tablesOf (es ++ es') = tablesOf es ++ tablesOf es' :=
  List.filterMap_append

/-- Uses of columns select no table. -/
theorem tablesOf_columns (us : List ColumnUse) : tablesOf (us.map .column) = [] := by
  rw [tablesOf, List.filterMap_map]
  exact List.filterMap_eq_nil_iff.2 fun _ _ => rfl

/-- The tables of chains are those that they select. -/
theorem tablesOf_chains (qs : List Chain) :
    tablesOf (qs.flatMap fun q => .table q.table.text :: q.uses.map .column) =
      qs.map (·.table.text) := by
  induction qs with
  | nil => rfl
  | cons q qs ih =>
    rw [List.flatMap_cons, tablesOf_append, ih, List.map_cons]
    exact congrArg (q.table.text :: · ++ _) (tablesOf_columns q.uses)

/-- Uses in a row go with the same table. -/
theorem usesFrom_columns (current : Option String) (us : List ColumnUse) (es : List Event) :
    usesFrom current (us.map .column ++ es) = us.map (current, ·) ++ usesFrom current es := by
  induction us with
  | nil => rfl
  | cons u us ih => exact congrArg ((current, u) :: ·) ih

/-- Every use of a column is attributed to the table of its own chain. -/
theorem usesOf_chains (qs : List Chain) :
    usesOf (qs.flatMap fun q => .table q.table.text :: q.uses.map .column) =
      qs.flatMap fun q => q.uses.map (some q.table.text, ·) := by
  have hfrom : ∀ current, usesFrom current
      (qs.flatMap fun q => .table q.table.text :: q.uses.map .column) =
      qs.flatMap fun q => q.uses.map (some q.table.text, ·) := by
    induction qs with
    | nil => exact fun _ => rfl
    | cons q qs ih =>
      intro current
      rw [List.flatMap_cons, List.flatMap_cons, List.cons_append, usesFrom, usesFrom_columns, ih]
  exact hfrom none

/-- The names that a chain uses are its columns. -/
theorem names_uses (q : Chain) : q.uses.map (·.name) = q.columns := by
  rw [uses, columns, List.map_flatMap]
  congr 1
  funext c
  cases c with
  | compare method column value => rfl
  | anyOf cs => exact List.map_map

/-- The use of a join key that a comparison for equality on a table is, if it is one. -/
def relationUse? (table : String) (e : String × String) : Option RelationUse :=
  if isJoinKey e.1 then some ⟨e.1, .ofList [table], some e.2⟩ else none

/-- The uses of join keys in chains are the equalities of each chain on a column that looks like
one. -/
theorem relationUses_chains (qs : List Chain) :
    relationUses .nearest (qs.flatMap fun q => .table q.table.text :: q.uses.map .column) =
      qs.flatMap fun q => q.equalities.filterMap (relationUse? q.table.text) := by
  rw [relationUses, usesOf_chains, List.filterMap_flatMap]
  congr 1
  funext q
  rw [List.filterMap_map, uses, List.filterMap_flatMap, equalities, List.filterMap_filterMap,
    List.filterMap_eq_flatMap_toList]
  congr 1
  funext c
  cases c with
  | compare method column value =>
    by_cases hmethod : method = .eq
    · subst hmethod
      by_cases hkey : isJoinKey column.text
      · simp [usesOfCall, equality?, relationUse?, hkey]
      · simp [usesOfCall, equality?, relationUse?, hkey]
    · simp [usesOfCall, equality?, hmethod]
  | anyOf cs =>
    refine List.filterMap_eq_nil_iff.2 fun u hu => ?_
    obtain ⟨c, -, rfl⟩ := List.mem_map.1 hu
    rfl

/-- A use of a join key in chains comes from an equality of one of them. -/
theorem mem_relationUses {qs : List Chain} {r : RelationUse} :
    r ∈ qs.flatMap (fun q => q.equalities.filterMap (relationUse? q.table.text)) ↔
      ∃ q ∈ qs, ∃ v, (r.column, v) ∈ q.equalities ∧ isJoinKey r.column ∧
        r = ⟨r.column, .ofList [q.table.text], some v⟩ := by
  simp only [List.mem_flatMap, List.mem_filterMap, relationUse?]
  constructor
  · rintro ⟨q, hq, ⟨column, v⟩, he, hr⟩
    split at hr
    · next hkey =>
      cases hr
      exact ⟨q, hq, v, he, hkey, rfl⟩
    · cases hr
  · rintro ⟨q, hq, v, he, hkey, hr⟩
    refine ⟨q, hq, (r.column, v), he, ?_⟩
    rw [if_pos hkey, ← hr]

/-- The first name that a join key is compared with is the first value in the list of
comparisons for equality. -/
theorem firstArgument_relationUses (qs : List Chain) {column : String} (hkey : isJoinKey column) :
    firstArgument (qs.flatMap fun q => q.equalities.filterMap (relationUse? q.table.text)) column =
      (qs.flatMap equalities).lookup column := by
  have hchain : ∀ (table : String) (es : List (String × String)),
      firstArgument (es.filterMap (relationUse? table)) column = es.lookup column := by
    intro table es
    induction es with
    | nil => rfl
    | cons e es ih =>
      obtain ⟨d, v⟩ := e
      rw [List.filterMap_cons, List.lookup_cons]
      by_cases hd : d = column
      · subst hd
        simp [relationUse?, hkey, firstArgument]
      · have hne : (column == d) = false := beq_eq_false_iff_ne.2 (Ne.symm hd)
        by_cases hkey' : isJoinKey d
        · have hskip : firstArgument (⟨d, .ofList [table], some v⟩ ::
              es.filterMap (relationUse? table)) column =
              firstArgument (es.filterMap (relationUse? table)) column := by
            simp [firstArgument, hd]
          simp only [relationUse?, hkey', if_true, hne]
          exact hskip.trans ih
        · simpa [relationUse?, hkey', hne] using ih
  induction qs with
  | nil => rfl
  | cons q qs ih =>
    rw [List.flatMap_cons, List.flatMap_cons, firstArgument_append, hchain, ih, List.lookup_append]

/-! ## Extraction -/

/-- What is extracted from a module of chains. -/
def extraction (module : String) (qs : List Chain) : Extraction Usage :=
  Query.extract .nearest [⟨module, String.ofList (render qs)⟩]

/-- The pairs of chains are the columns of each chain with its table. -/
theorem pairs_chains (qs : List Chain) :
    pairs .nearest (qs.flatMap fun q => .table q.table.text :: q.uses.map .column) =
      qs.flatMap fun q => q.columns.map (q.table.text, ·) := by
  rw [pairs, usesOf_chains, List.filterMap_flatMap]
  congr 1
  funext q
  rw [List.filterMap_map, ← names_uses, List.map_map]
  exact congrFun (List.filterMap_eq_map (f := fun u : ColumnUse => (q.table.text, u.name))) _

/-- The draft that a module of chains leaves. -/
def draft (module : String) (qs : List Chain) : Draft :=
  ({} : Draft).add .nearest ⟨module, String.ofList (render qs)⟩

/-- The columns of a module of chains are those of the chains, by table. -/
theorem columns_draft (module : String) (qs : List Chain) :
    (draft module qs).columns =
      (qs.flatMap fun q => q.columns.map (q.table.text, ·)).foldl
        (fun s p => s.insertColumn p.1 p.2)
        ((qs.map (·.table.text)).foldl ColumnSet.insertTable ∅) := by
  simp only [draft, Draft.columns_add, Draft.addColumns, moduleEvents_render, tablesOf_chains,
    pairs_chains]

/-- A module of chains mentions the tables and columns of the chains. -/
theorem modules_draft (module : String) (qs : List Chain) (name : String) :
    (draft module qs).modules.get? name =
      if name = module then some { tables := SortedSet.insertMany ∅ (qs.map (·.table.text)),
                                   columns := SortedSet.insertMany ∅ (qs.flatMap columns) }
      else none := by
  have hnames : (qs.flatMap fun q => q.uses.map (some q.table.text, ·)).map (·.2.name) =
      qs.flatMap columns := by
    rw [List.map_flatMap]
    congr 1
    funext q
    rw [List.map_map, ← names_uses]
    rfl
  simp only [draft, Draft.modules_add, Draft.addModule, moduleEvents_render, tablesOf_chains,
    usesOf_chains, hnames, SortedMap.get?_update]
  rfl

/-- The draft of a module of chains holds the uses of join keys in them. -/
theorem holds_draft (module : String) (qs : List Chain) :
    (draft module qs).Holds module
      (qs.flatMap fun q => q.equalities.filterMap (relationUse? q.table.text)) := by
  have hholds : (draft module qs).Holds module ([] ++
      relationUses .nearest (moduleEvents ⟨module, String.ofList (render qs)⟩)) :=
    Draft.Holds.foldl_addRelation (.empty rfl) _
  rwa [List.nil_append, moduleEvents_render, relationUses_chains] at hholds

/-- Nothing is reported on chains, since each selects a table first. -/
theorem diagnostics_chains (module : String) (qs : List Chain) :
    (extraction module qs).diagnostics = [] := by
  rw [extraction, Query.extract, List.flatMap_cons, List.flatMap_nil, List.append_nil,
    Query.diagnostics, eventDiagnostics, moduleEvents_render, usesOf_chains]
  refine List.filterMap_eq_nil_iff.2 fun u hu => ?_
  obtain ⟨q, -, hu⟩ := List.mem_flatMap.1 hu
  obtain ⟨v, -, rfl⟩ := List.mem_map.1 hu
  rfl

/-- A candidate joins the uses of its column in a module of chains if it stands for a join key that
the chains compare for equality, with the tables of these chains and the first value. -/
theorem joins_iff (module : String) (qs : List Chain) (c : RelationCandidate) :
    Joins module (qs.flatMap fun q => q.equalities.filterMap (relationUse? q.table.text)) c ↔
      c.module = module ∧ ['_', 'i', 'd'] <:+ c.column.toList ∧
      (∃ q ∈ qs, ∃ v, (c.column, v) ∈ q.equalities) ∧
      (∀ table, table ∈ c.tables ↔
        ∃ q ∈ qs, q.table.text = table ∧ ∃ v, (c.column, v) ∈ q.equalities) ∧
      c.argument = (qs.flatMap equalities).lookup c.column := by
  have hsuffix : isJoinKey c.column ↔ ['_', 'i', 'd'] <:+ c.column.toList :=
    List.isSuffixOf_iff_suffix
  have htables : isJoinKey c.column → ∀ table,
      ((∃ r ∈ qs.flatMap fun q => q.equalities.filterMap (relationUse? q.table.text),
        r.column = c.column ∧ table ∈ r.tables) ↔
        ∃ q ∈ qs, q.table.text = table ∧ ∃ v, (c.column, v) ∈ q.equalities) := by
    intro hkey table
    constructor
    · rintro ⟨r, hr, hcolumn, ht⟩
      obtain ⟨q, hq, v, he, -, hr⟩ := mem_relationUses.1 hr
      rw [hr, SortedSet.mem_ofList, List.mem_singleton] at ht
      exact ⟨q, hq, ht.symm, v, hcolumn ▸ he⟩
    · rintro ⟨q, hq, rfl, v, he⟩
      refine ⟨⟨c.column, .ofList [q.table.text], some v⟩, ?_, rfl, ?_⟩
      · exact mem_relationUses.2 ⟨q, hq, v, he, hkey, rfl⟩
      · rw [SortedSet.mem_ofList, List.mem_singleton]
  constructor
  · intro h
    obtain ⟨r, hr, hcolumn⟩ := h.used
    obtain ⟨q, hq, v, he, hkey, -⟩ := mem_relationUses.1 hr
    rw [hcolumn] at he hkey
    refine ⟨h.module, hsuffix.1 hkey, ⟨q, hq, v, he⟩, fun table => ?_, ?_⟩
    · exact (h.tables table).trans (htables hkey table)
    · rw [h.argument, firstArgument_relationUses qs hkey]
  · rintro ⟨hmodule, hid, ⟨q, hq, v, he⟩, hjoined, hargument⟩
    have hkey := hsuffix.2 hid
    refine ⟨hmodule, ?_, fun table => ?_, ?_⟩
    · exact ⟨⟨c.column, .ofList [q.table.text], some v⟩,
        mem_relationUses.2 ⟨q, hq, v, he, hkey, rfl⟩, rfl⟩
    · exact (hjoined table).trans (htables hkey table).symm
    · rw [hargument, firstArgument_relationUses qs hkey]

/-- A module of chains is extracted exactly. Nothing is reported; the tables are those selected,
each with the columns of its chains; the module mentions these tables and columns; and there is one
relation candidate for each column that ends in `_id` and is compared for equality, with the tables
of the chains that compare it and the first value it is compared with. -/
theorem extract_chains_exact (module : String) (qs : List Chain) :
    (extraction module qs).diagnostics = [] ∧
    (∀ table, (extraction module qs).snapshot.columns.containsTable table ↔
      ∃ q ∈ qs, q.table.text = table) ∧
    (∀ table column, column ∈ (extraction module qs).snapshot.columns.columnsOf table ↔
      ∃ q ∈ qs, q.table.text = table ∧ column ∈ q.columns) ∧
    (∃ mentioned, (∀ name, (extraction module qs).snapshot.modules.get? name =
        if name = module then some mentioned else none) ∧
      (∀ table, table ∈ mentioned.tables ↔ ∃ q ∈ qs, q.table.text = table) ∧
      ∀ column, column ∈ mentioned.columns ↔ ∃ q ∈ qs, column ∈ q.columns) ∧
    ((extraction module qs).snapshot.relationCandidates.map (·.column)).Nodup ∧
    ∀ c, c ∈ (extraction module qs).snapshot.relationCandidates ↔
      c.module = module ∧ ['_', 'i', 'd'] <:+ c.column.toList ∧
      (∃ q ∈ qs, ∃ v, (c.column, v) ∈ q.equalities) ∧
      (∀ table, table ∈ c.tables ↔
        ∃ q ∈ qs, q.table.text = table ∧ ∃ v, (c.column, v) ∈ q.equalities) ∧
      c.argument = (qs.flatMap equalities).lookup c.column := by
  have hsnapshot : (extraction module qs).snapshot = (draft module qs).usage := rfl
  rw [hsnapshot]
  refine ⟨diagnostics_chains module qs, fun table => ?_, fun table column => ?_,
    ⟨_, modules_draft module qs, fun table => ?_, fun column => ?_⟩,
    (holds_draft module qs).nodup_columns, fun c => ?_⟩
  · show (draft module qs).columns.containsTable table ↔ _
    rw [columns_draft, ColumnSet.containsTable_foldl_insertColumn,
      ColumnSet.containsTable_foldl_insertTable]
    simp only [List.mem_map, List.mem_flatMap, Prod.mk.injEq]
    constructor
    · rintro (⟨column, q, hq, d, -, htable, -⟩ | ⟨q, hq, htable⟩ | h)
      · exact ⟨q, hq, htable⟩
      · exact ⟨q, hq, htable⟩
      · cases h
    · rintro ⟨q, hq, htable⟩
      exact .inr (.inl ⟨q, hq, htable⟩)
  · show column ∈ (draft module qs).columns.columnsOf table ↔ _
    rw [columns_draft, ColumnSet.mem_columnsOf_foldl_insertColumn,
      ColumnSet.mem_columnsOf_foldl_insertTable]
    simp only [List.mem_map, List.mem_flatMap, Prod.mk.injEq, ColumnSet.not_mem_columnsOf_empty,
      or_false]
    constructor
    · rintro ⟨q, hq, d, hd, htable, rfl⟩
      exact ⟨q, hq, htable, hd⟩
    · rintro ⟨q, hq, htable, hcolumn⟩
      exact ⟨q, hq, column, hcolumn, htable, rfl⟩
  · rw [SortedSet.mem_insertMany, List.mem_map]
    exact or_iff_right SortedSet.not_mem_empty
  · rw [SortedSet.mem_insertMany, List.mem_flatMap]
    exact or_iff_right SortedSet.not_mem_empty
  · exact (holds_draft module qs).mem_values.trans (joins_iff module qs c)

end SchemaDrift.Chain
