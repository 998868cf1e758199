import SchemaDrift.Proofs.Collection.Union
import SchemaDrift.Proofs.Query.Candidates
import SchemaDrift.Proofs.Query.Exact

/-!
# Lists of modules

Reading a file joins what the file uses by itself to what was there before. `Draft.join` is that
join, each change that reading makes is one (`Draft.Adds`), and so is reading a whole list of files
(`Draft.ofModules_append`). Nothing of one file is left when the next one is read, and nothing of
two files is paired. The order of the files only decides which name a relation candidate keeps
(`Draft.withoutArguments_perm`), and the order of the diagnostics (`extract_append_modules`).
-/

namespace SchemaDrift

/-- The tables and columns that either mentions. -/
def ModuleUsage.union (a b : ModuleUsage) : ModuleUsage where
  tables := a.tables.union b.tables
  columns := a.columns.union b.columns

instance : Std.Associative ModuleUsage.union where
  assoc a b c := by simp only [ModuleUsage.union, SortedSet.union_assoc]

/-- The order in which two usages of a module are joined does not matter. -/
theorem ModuleUsage.union_comm (a b : ModuleUsage) : a.union b = b.union a := by
  rw [union, union, a.tables.union_comm, a.columns.union_comm]

namespace RelationCandidate

/-- The column that a candidate stands for. -/
def key (c : RelationCandidate) : ModuleColumn :=
  ⟨c.module, c.column⟩

/-- A candidate on the tables of either. The name of the first is kept, if it has one. -/
def join (a b : RelationCandidate) : RelationCandidate :=
  { a with tables := a.tables.union b.tables, argument := a.argument.or b.argument }

/-- A candidate without the name that it is compared with. -/
def withoutArgument (c : RelationCandidate) : RelationCandidate :=
  { c with argument := none }

instance : Std.Associative join where
  assoc a b c := by simp only [join, SortedSet.union_assoc, Option.or_assoc]

/-- Which of two candidates of a column comes first only decides the name that is kept. -/
theorem withoutArgument_join_comm {a b : RelationCandidate} (h : a.key = b.key) :
    (a.join b).withoutArgument = (b.join a).withoutArgument := by
  obtain ⟨hmodule, hcolumn⟩ := ModuleColumn.mk.injEq .. ▸ h
  simp only [join, withoutArgument, hmodule, hcolumn, a.tables.union_comm]

end RelationCandidate

/-- The candidate of a column, if it has one. -/
def Usage.candidate? (u : Usage) (k : ModuleColumn) : Option RelationCandidate :=
  u.relationCandidates.find? fun c => decide (c.key = k)

/-- Usage without the names that join keys are compared with. -/
def Usage.withoutArguments (u : Usage) : Usage :=
  { u with relationCandidates := u.relationCandidates.map RelationCandidate.withoutArgument }

namespace Query

namespace Draft

/-! ## Joining drafts -/

/-- What either draft has. -/
def join (a b : Draft) : Draft where
  modules := a.modules.unionWith ModuleUsage.union b.modules
  columns := a.columns.union b.columns
  candidates := a.candidates.unionWith RelationCandidate.join b.candidates

/-- The empty draft is neutral in joining. -/
theorem join_empty (d : Draft) : d.join {} = d := by
  rw [join, ColumnSet.union_empty, SortedMap.unionWith_empty, SortedMap.unionWith_empty]

/-- Joining drafts is associative. -/
theorem join_assoc (a b c : Draft) : (a.join b).join c = a.join (b.join c) := by
  simp only [join, ColumnSet.union_assoc, SortedMap.unionWith_assoc]

/-! ## Changes that join -/

/-- A change of drafts that joins to every draft what it makes of nothing. -/
def Adds (f : Draft → Draft) : Prop :=
  ∀ d, f d = d.join (f {})

/-- Two changes that add to a draft add to it together. -/
theorem Adds.comp {f g : Draft → Draft} (hg : Adds g) (hf : Adds f) : Adds fun d => g (f d) := by
  intro d
  calc g (f d)
      = (d.join (f {})).join (g {}) := by rw [hg (f d), hf d]
    _ = d.join (g (f {})) := by rw [join_assoc, ← hg (f {})]

/-- Changes that add to a draft one after another add to it together. -/
theorem Adds.foldl {α : Type} {step : Draft → α → Draft} (h : ∀ x, Adds (step · x))
    (xs : List α) : Adds fun d => xs.foldl step d := by
  induction xs with
  | nil => exact fun d => (join_empty d).symm
  | cons x xs ih => exact ih.comp (h x)

/-- A use of a join key adds to a draft. -/
theorem adds_addRelation (m : String) (r : RelationUse) : Adds (addRelation m · r) := by
  intro d
  have hcandidates : (d.addRelation m r).candidates =
      d.candidates.unionWith RelationCandidate.join (({} : Draft).addRelation m r).candidates :=
    SortedMap.update_eq_unionWith _ _ _ fun _ => rfl
  calc d.addRelation m r
      = ⟨d.modules, d.columns.union ∅, (d.addRelation m r).candidates⟩ := by
        rw [ColumnSet.union_empty]; rfl
    _ = d.join (({} : Draft).addRelation m r) := congrArg (mk _ _) hcandidates

/-- What a module mentions adds to a draft. -/
theorem adds_addModule (m : String) (es : List Event) : Adds (addModule m es) := by
  intro d
  have hmodules := SortedMap.update_eq_unionWith ModuleUsage.union d.modules m
    (g := fun old =>
      let u := old.getD {}
      { tables := u.tables.insertMany (tablesOf es)
        columns := u.columns.insertMany ((usesOf es).map (·.2.name)) })
    fun u => by
      show ModuleUsage.mk _ _ = ModuleUsage.mk _ _
      rw [Option.getD_some, u.tables.insertMany_eq_union, u.columns.insertMany_eq_union]
      rfl
  calc d.addModule m es
      = ⟨(d.addModule m es).modules, d.columns.union ∅, d.candidates⟩ := by
        rw [ColumnSet.union_empty]; rfl
    _ = d.join (({} : Draft).addModule m es) := congrArg (mk · _ _) hmodules

/-- Columns add to a draft. -/
theorem adds_addColumns (p : Pairing) (es : List Event) : Adds (addColumns p es) := by
  intro d
  have hcolumns : (d.addColumns p es).columns =
      d.columns.union (({} : Draft).addColumns p es).columns := by
    refine ColumnSet.ext_mem (fun t => ?_) fun t c => ?_
    · simp only [addColumns, ColumnSet.containsTable_union,
        ColumnSet.containsTable_foldl_insertColumn, ColumnSet.containsTable_foldl_insertTable,
        ColumnSet.not_containsTable_empty]
      tauto
    · simp only [addColumns, ColumnSet.mem_columnsOf_union,
        ColumnSet.mem_columnsOf_foldl_insertColumn, ColumnSet.mem_columnsOf_foldl_insertTable,
        ColumnSet.not_mem_columnsOf_empty]
      tauto
  exact congrArg (mk _ · _) hcolumns

/-- Reading a file joins what the file uses by itself. -/
theorem adds_add (p : Pairing) (m : Source) : Adds (add p · m) :=
  (Adds.foldl (adds_addRelation m.name) (relationUses p (moduleEvents m))).comp
    ((adds_addModule m.name (moduleEvents m)).comp (adds_addColumns p (moduleEvents m)))

/-! ## Lists of files -/

/-- The draft that files leave. -/
def ofModules (p : Pairing) (ms : List Source) : Draft :=
  ms.foldl (add p) {}

/-- The draft of two lists of files is that of the first joined with that of the second. -/
theorem ofModules_append (p : Pairing) (ms ms' : List Source) :
    ofModules p (ms ++ ms') = (ofModules p ms).join (ofModules p ms') := by
  rw [ofModules, List.foldl_append]
  exact Adds.foldl (adds_add p) ms' (ofModules p ms)

/-- The draft of files is that of the first file joined with that of the others. -/
theorem ofModules_cons (p : Pairing) (m : Source) (ms : List Source) :
    ofModules p (m :: ms) = (ofModules p [m]).join (ofModules p ms) :=
  ofModules_append p [m] ms

/-- The draft of files is grounded. -/
theorem grounded_ofModules (p : Pairing) (ms : List Source) : (ofModules p ms).Grounded :=
  Grounded.empty.foldl_add p ms

/-- A column is used on a table if one file by itself uses it there. -/
theorem mem_columnsOf_ofModules {p : Pairing} {ms : List Source} {t c : String} :
    c ∈ (ofModules p ms).columns.columnsOf t ↔
      ∃ m ∈ ms, c ∈ (ofModules p [m]).columns.columnsOf t := by
  induction ms with
  | nil => simp [ofModules]
  | cons m ms ih =>
    rw [ofModules_cons, List.exists_mem_cons_iff, ← ih]
    exact ColumnSet.mem_columnsOf_union

/-- A file by itself uses the columns that it pairs with tables. -/
theorem mem_columnsOf_ofModules_singleton {p : Pairing} {m : Source} {t c : String} :
    c ∈ (ofModules p [m]).columns.columnsOf t ↔ (t, c) ∈ pairs p (moduleEvents m) := by
  show c ∈ (add p {} m).columns.columnsOf t ↔ _
  rw [columns_add]
  simp [addColumns]

/-- A candidate stands on a table if the candidate of one file by itself does. -/
theorem mem_tables_ofModules {p : Pairing} {ms : List Source} {k : ModuleColumn} {t : String} :
    (∃ c, (ofModules p ms).candidates.get? k = some c ∧ t ∈ c.tables) ↔
      ∃ m ∈ ms, ∃ c, (ofModules p [m]).candidates.get? k = some c ∧ t ∈ c.tables := by
  induction ms with
  | nil => exact ⟨nofun, nofun⟩
  | cons m ms ih =>
    rw [ofModules_cons, List.exists_mem_cons_iff, ← ih, join, SortedMap.get?_unionWith]
    generalize (ofModules p [m]).candidates.get? k = x
    generalize (ofModules p ms).candidates.get? k = y
    cases x <;> cases y <;> simp [RelationCandidate.join]

/-! ## The order of the files -/

/-- A draft without the names that join keys are compared with. -/
def withoutArguments (d : Draft) : Draft :=
  { d with candidates := d.candidates.mapValues RelationCandidate.withoutArgument }

/-- Without the names compared with, drafts are joined as before. -/
theorem withoutArguments_join (a b : Draft) :
    (a.join b).withoutArguments = a.withoutArguments.join b.withoutArguments := by
  refine congrArg (mk _ _) (SortedMap.ext_get? fun k => ?_)
  simp only [withoutArguments, join, SortedMap.get?_mapValues, SortedMap.get?_unionWith]
  cases a.candidates.get? k <;> cases b.candidates.get? k <;> rfl

/-- Without the names compared with, the order in which grounded drafts are joined does not
matter. -/
theorem Grounded.withoutArguments_join_comm {a b : Draft} (ha : a.Grounded) (hb : b.Grounded) :
    (a.join b).withoutArguments = (b.join a).withoutArguments := by
  have hmodules : (a.join b).modules = (b.join a).modules := SortedMap.ext_get? fun k => by
    rw [join, join, SortedMap.get?_unionWith, SortedMap.get?_unionWith]
    cases a.modules.get? k <;> cases b.modules.get? k <;> simp [ModuleUsage.union_comm]
  have hcandidates : (a.join b).withoutArguments.candidates =
      (b.join a).withoutArguments.candidates := SortedMap.ext_get? fun k => by
    simp only [withoutArguments, join, SortedMap.get?_mapValues, SortedMap.get?_unionWith]
    cases hx : a.candidates.get? k with
    | none => cases b.candidates.get? k <;> rfl
    | some x =>
      cases hy : b.candidates.get? k with
      | none => rfl
      | some y =>
        have hkey : x.key = y.key := (ha.key k x hx).trans (hb.key k y hy).symm
        exact congrArg some (RelationCandidate.withoutArgument_join_comm hkey)
  calc (a.join b).withoutArguments
      = ⟨(a.join b).modules, a.columns.union b.columns,
          (a.join b).withoutArguments.candidates⟩ := rfl
    _ = (b.join a).withoutArguments := by
        rw [hmodules, hcandidates, a.columns.union_comm]; rfl

/-- Files in another order leave the same draft, up to the names of candidates. -/
theorem withoutArguments_perm {p : Pairing} {ps ms : List Source} (h : ps.Perm ms) :
    (ofModules p ps).withoutArguments = (ofModules p ms).withoutArguments := by
  induction h with
  | nil => rfl
  | @cons m ps ms _ ih =>
    rw [ofModules_cons p m ps, ofModules_cons p m ms, withoutArguments_join,
      withoutArguments_join, ih]
  | swap a b ms =>
    have hswap := (grounded_ofModules p [b]).withoutArguments_join_comm (grounded_ofModules p [a])
    rw [ofModules_cons p b (a :: ms), ofModules_cons p a ms, ofModules_cons p a (b :: ms),
      ofModules_cons p b ms, ← join_assoc, ← join_assoc, withoutArguments_join, hswap,
      ← withoutArguments_join]
  | trans _ _ ih ih' => exact ih.trans ih'

/-! ## Usage -/

/-- The usage of a draft without the names compared with is the usage without them. -/
theorem usage_withoutArguments (d : Draft) :
    d.withoutArguments.usage = d.usage.withoutArguments := by
  refine congrArg (Usage.mk _ _) ?_
  simp [withoutArguments, SortedMap.values, SortedMap.mapValues, usage]

section
variable {d : Draft} (h : d.Grounded)
include h

/-- A grounded draft keeps each candidate under its module and column. -/
theorem Grounded.key_of_mem_entries {e : ModuleColumn × RelationCandidate}
    (he : e ∈ d.candidates.entries) : e.2.key = e.1 :=
  h.key e.1 e.2 (SortedMap.get?_of_mem_entries he)

/-- The candidates are listed by module and column, none twice. -/
theorem Grounded.pairwise_candidates :
    d.usage.relationCandidates.Pairwise fun a b => compare a.key b.key = .lt := by
  refine List.pairwise_map.2 (d.candidates.sorted.imp_of_mem fun {a b} ha hb hlt => ?_)
  rwa [h.key_of_mem_entries ha, h.key_of_mem_entries hb]

/-- The candidate of a column is the one that the draft has for it. -/
theorem Grounded.candidate?_usage (k : ModuleColumn) :
    d.usage.candidate? k = d.candidates.get? k := by
  have hkeys : ∀ e ∈ d.candidates.entries, e.2.key = e.1 := fun e => h.key_of_mem_entries
  show (d.candidates.entries.map (·.2)).find? _ = valueAt? k d.candidates.entries
  generalize d.candidates.entries = es at hkeys
  induction es with
  | nil => rfl
  | cons e es ih =>
    rw [List.forall_mem_cons] at hkeys
    rw [List.map_cons, List.find?_cons, valueAt?, ih hkeys.2, hkeys.1]
    by_cases hk : e.1 = k <;> simp [hk]

end

end Draft

/-- What files use is the usage of their draft. -/
theorem snapshot_extract (p : Pairing) (ms : List Source) :
    (extract p ms).snapshot = (Draft.ofModules p ms).usage := rfl

/-- The candidate of a column of a module is the one in the draft. -/
theorem candidate?_extract (p : Pairing) (ms : List Source) (k : ModuleColumn) :
    (extract p ms).snapshot.candidate? k = (Draft.ofModules p ms).candidates.get? k :=
  (Draft.grounded_ofModules p ms).candidate?_usage k

/-- **Extraction takes lists of files to usage.** Under either policy, what two lists of files use
joins the columns of both table by table, and the tables and columns of both module by module. The
relation candidates stand in the order of module and column; each of them is on the tables of both
and keeps the name of the first list, if it has one there. What was skipped is listed one after the
other. So a column is used on a table, and a candidate stands on a table, exactly if one file by
itself says so; the cross product pairs the tables and columns of one file only, whatever its name;
and files in another order change nothing but the names of candidates and the order of what was
skipped. -/
theorem extract_append_modules (p : Pairing) (ms ms' : List Source) :
    let u := (extract p ms).snapshot
    let u' := (extract p ms').snapshot
    let both := (extract p (ms ++ ms')).snapshot
    both.columns = u.columns.union u'.columns ∧
    both.modules = u.modules.unionWith ModuleUsage.union u'.modules ∧
    (both.relationCandidates.Pairwise fun a b => compare a.key b.key = .lt) ∧
    (∀ k, both.candidate? k =
      Option.merge RelationCandidate.join (u.candidate? k) (u'.candidate? k)) ∧
    (extract p (ms ++ ms')).diagnostics =
      (extract p ms).diagnostics ++ (extract p ms').diagnostics ∧
    (∀ t c, c ∈ u.columns.columnsOf t ↔
      ∃ m ∈ ms, c ∈ (extract p [m]).snapshot.columns.columnsOf t) ∧
    (∀ k t, (∃ c, u.candidate? k = some c ∧ t ∈ c.tables) ↔
      ∃ m ∈ ms, ∃ c, (extract p [m]).snapshot.candidate? k = some c ∧ t ∈ c.tables) ∧
    (∀ t c, c ∈ (extract .crossProduct ms).snapshot.columns.columnsOf t ↔
      ∃ m ∈ ms, t ∈ tablesOf (moduleEvents m) ∧
        ∃ use ∈ usesOf (moduleEvents m), use.2.name = c) ∧
    ∀ ps : List Source, ps.Perm ms →
      (extract p ps).snapshot.withoutArguments = u.withoutArguments ∧
      (extract p ps).diagnostics.Perm (extract p ms).diagnostics := by
  have hjoin : (extract p (ms ++ ms')).snapshot =
      ((Draft.ofModules p ms).join (Draft.ofModules p ms')).usage := by
    rw [snapshot_extract, Draft.ofModules_append]
  refine ⟨by rw [hjoin]; rfl, by rw [hjoin]; rfl,
    (Draft.grounded_ofModules p (ms ++ ms')).pairwise_candidates, fun k => ?_,
    List.flatMap_append, fun t c => Draft.mem_columnsOf_ofModules, fun k t => ?_, fun t c => ?_,
    fun ps hps => ⟨?_, hps.flatMap_right _⟩⟩
  · rw [candidate?_extract, candidate?_extract, candidate?_extract, Draft.ofModules_append]
    exact SortedMap.get?_unionWith ..
  · simp only [candidate?_extract]
    exact Draft.mem_tables_ofModules
  · refine Draft.mem_columnsOf_ofModules.trans (exists_congr fun m => and_congr_right fun _ => ?_)
    rw [Draft.mem_columnsOf_ofModules_singleton]
    simp [pairs]
  · rw [snapshot_extract, snapshot_extract, ← Draft.usage_withoutArguments,
      ← Draft.usage_withoutArguments, Draft.withoutArguments_perm hps]

/-- Two files of one module, of which one selects a table and the other uses a column, are not
mixed, whichever is read first. -/
theorem extract_shared_name :
    let a : Source := ⟨"feed", "sb.from('posts');"⟩
    let b : Source := ⟨"feed", "sb.eq('user_id', id);"⟩
    [b, a].Perm [a, b] ∧
    (extract .crossProduct [b, a]).snapshot.withoutArguments =
      (extract .crossProduct [a, b]).snapshot.withoutArguments ∧
    "user_id" ∉ (extract .crossProduct [a, b]).snapshot.columns.columnsOf "posts" := by
  intro a b
  have hp : [b, a].Perm [a, b] := .swap a b []
  have h := extract_append_modules .crossProduct [a, b] []
  refine ⟨hp, (h.2.2.2.2.2.2.2.2 _ hp).1, fun hmixed => ?_⟩
  have ha : "user_id" ∉ (extract .crossProduct [a]).snapshot.columns.columnsOf "posts" := by
    decide +kernel
  have hb : "user_id" ∉ (extract .crossProduct [b]).snapshot.columns.columnsOf "posts" := by
    decide +kernel
  obtain ⟨m, hm, hused⟩ := (h.2.2.2.2.2.1 "posts" "user_id").1 hmixed
  rcases List.mem_pair.1 hm with rfl | rfl
  · exact ha hused
  · exact hb hused

end Query

end SchemaDrift
