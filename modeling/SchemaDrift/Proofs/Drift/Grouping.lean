import Mathlib.Data.List.Perm.Basic
import SchemaDrift.Drift.TextReport
import SchemaDrift.Proofs.Collection.Lookup

/-!
# Foreign keys in groups

Foreign keys are put one by one into the group of the table they start at. A key put into its group
is one key more in the groups (`flatMap_addToGroup`), so all of them are there as often as they were
given (`flatMap_groupForeignKeys`). The group of a table is what the list has for that table, in
order (`get?_groupForeignKeys`). Keys in order are told by how often each occurs, since the order of
foreign keys tells any two apart; so neither the groups (`groupForeignKeys_perm`) nor the text of a
report (`renderText_perm_invariant`) depend on the order of the keys.
-/

namespace SchemaDrift

/-! ## The order of foreign keys -/

instance : Std.TransOrd ForeignKey :=
  inferInstanceAs (Std.TransCmp (compareLex (compareOn ForeignKey.sourceTable) (compareLex
    (compareOn ForeignKey.sourceColumn) (compareLex (compareOn ForeignKey.targetTable)
      (compareOn ForeignKey.targetColumn)))))

instance : Std.LawfulEqOrd ForeignKey where
  eq_of_compare {a b} h := by
    have h : (compare a.sourceTable b.sourceTable).then
      ((compare a.sourceColumn b.sourceColumn).then ((compare a.targetTable b.targetTable).then
        (compare a.targetColumn b.targetColumn))) = .eq := h
    simp only [Ordering.then_eq_eq, Std.LawfulEqOrd.compare_eq_iff_eq] at h
    cases a; cases b; simp_all

namespace ForeignKey

/-- The order of foreign keys is transitive. -/
theorem isLE_trans (a b c : ForeignKey) (hab : (compare a b).isLE) (hbc : (compare b c).isLE) :
    (compare a c).isLE :=
  Std.TransCmp.isLE_trans hab hbc

/-- The order of foreign keys is total. -/
theorem isLE_total (a b : ForeignKey) : ((compare a b).isLE || (compare b a).isLE) = true := by
  rw [Std.OrientedOrd.eq_swap]
  cases compare b a <;> rfl

/-- Foreign keys in order are told by how often each of them occurs. -/
theorem mergeSort_eq_of_perm {ks ks' : List ForeignKey} (h : ks.Perm ks') :
    (ks.mergeSort fun a b => (compare a b).isLE) = ks'.mergeSort fun a b => (compare a b).isLE := by
  refine List.Perm.eq_of_pairwise (fun a b _ _ hab hba => ?_)
    (List.pairwise_mergeSort isLE_trans isLE_total ks)
    (List.pairwise_mergeSort isLE_trans isLE_total ks')
    ((List.mergeSort_perm ks _).trans (h.trans (List.mergeSort_perm ks' _).symm))
  exact Std.LawfulEqOrd.eq_of_compare (Std.OrientedCmp.isLE_antisymm hab hba)

end ForeignKey

/-! ## Groups -/

/-- The foreign keys that start at a table. -/
def startingAt (keys : List ForeignKey) (table : String) : List ForeignKey :=
  keys.filter (·.sourceTable == table)

/-- Groups with a foreign key added to the group of its table. -/
def addToGroup (m : SortedMap String (List ForeignKey)) (fk : ForeignKey) :
    SortedMap String (List ForeignKey) :=
  m.update fk.sourceTable fun group => group.getD [] ++ [fk]

/-- Grouping collects the foreign keys of each table and then sorts every group. -/
theorem groupForeignKeys_eq (keys : List ForeignKey) :
    groupForeignKeys keys = (keys.foldl addToGroup .empty).mapValues fun group =>
      group.mergeSort fun a b => (compare a b).isLE :=
  rfl

/-- The group of a table grows by the keys that start there. -/
theorem get?_foldl_addToGroup (keys : List ForeignKey) (m : SortedMap String (List ForeignKey))
    (t : String) : (keys.foldl addToGroup m).get? t =
      if startingAt keys t = [] then m.get? t
      else some ((m.get? t).getD [] ++ startingAt keys t) := by
  induction keys generalizing m with
  | nil => rfl
  | cons fk keys ih =>
    rw [List.foldl_cons, ih, addToGroup, SortedMap.get?_update, startingAt, startingAt,
      List.filter_cons]
    by_cases ht : t = fk.sourceTable
    · subst ht
      rw [if_pos rfl, beq_self_eq_true, if_pos rfl, if_neg (List.cons_ne_nil _ _)]
      split
      · next hnil => rw [hnil]
      · rw [Option.getD_some, List.append_assoc, List.singleton_append]
    · have hother : ¬(fk.sourceTable == t) = true := by simpa using Ne.symm ht
      rw [if_neg ht, if_neg hother]

/-- The group of a table is what the list has for that table, in order. -/
theorem get?_groupForeignKeys (keys : List ForeignKey) (t : String) :
    (groupForeignKeys keys).get? t = if startingAt keys t = [] then none
      else some ((startingAt keys t).mergeSort fun a b => (compare a b).isLE) := by
  rw [groupForeignKeys_eq, SortedMap.get?_mapValues, get?_foldl_addToGroup, SortedMap.get?_empty]
  split <;> rfl

/-- A key that is put into its group is one key more in all groups. -/
theorem flatMap_addToGroup (m : SortedMap String (List ForeignKey)) (fk : ForeignKey) :
    ((addToGroup m fk).entries.flatMap (·.2)).Perm (fk :: m.entries.flatMap (·.2)) := by
  show ((updateSorted _ _ m.entries).flatMap (·.2)).Perm _
  induction m.entries with
  | nil => exact .refl _
  | cons e es ih =>
    rw [updateSorted]
    split
    · exact .refl _
    · show (e.2 ++ [fk] ++ es.flatMap (·.2)).Perm (fk :: (e.2 ++ es.flatMap (·.2)))
      rw [List.append_assoc]
      exact List.perm_middle
    · exact (ih.append_left e.2).trans List.perm_middle

/-- Collecting loses no foreign key and adds none. -/
theorem flatMap_foldl_addToGroup (keys : List ForeignKey)
    (m : SortedMap String (List ForeignKey)) :
    ((keys.foldl addToGroup m).entries.flatMap (·.2)).Perm (keys ++ m.entries.flatMap (·.2)) := by
  induction keys generalizing m with
  | nil => exact .refl _
  | cons fk keys ih =>
    have hstep := (flatMap_addToGroup m fk).append_left keys
    calc ((keys.foldl addToGroup (addToGroup m fk)).entries.flatMap (·.2))
      _ |>.Perm (keys ++ (addToGroup m fk).entries.flatMap (·.2)) := ih _
      _ |>.Perm (keys ++ fk :: m.entries.flatMap (·.2)) := hstep
      _ |>.Perm (fk :: keys ++ m.entries.flatMap (·.2)) := List.perm_middle

/-- Every foreign key stands in the groups as often as it was given. -/
theorem flatMap_groupForeignKeys (keys : List ForeignKey) :
    ((groupForeignKeys keys).entries.flatMap (·.2)).Perm keys := by
  have hsorted : ∀ m : SortedMap String (List ForeignKey), ((m.mapValues fun group =>
      group.mergeSort fun a b => (compare a b).isLE).entries.flatMap (·.2)).Perm
        (m.entries.flatMap (·.2)) := by
    intro m
    show ((m.entries.map _).flatMap _).Perm _
    rw [List.flatMap_map]
    exact List.Perm.flatMap_left _ fun e _ => List.mergeSort_perm _ _
  have hall := flatMap_foldl_addToGroup keys .empty
  rw [show SortedMap.empty.entries.flatMap _ = ([] : List ForeignKey) from rfl,
    List.append_nil] at hall
  exact (hsorted _).trans hall

/-- The groups do not depend on the order of the foreign keys. -/
theorem groupForeignKeys_perm {keys keys' : List ForeignKey} (h : keys.Perm keys') :
    groupForeignKeys keys = groupForeignKeys keys' := by
  refine SortedMap.ext_get? fun t => ?_
  have ht : (startingAt keys t).Perm (startingAt keys' t) := h.filter _
  have hnil : startingAt keys t = [] ↔ startingAt keys' t = [] := by
    rw [← List.length_eq_zero_iff, ht.length_eq, List.length_eq_zero_iff]
  rw [get?_groupForeignKeys, get?_groupForeignKeys, ForeignKey.mergeSort_eq_of_perm ht]
  simp only [hnil]

/-- What it is for groups to hold foreign keys by table. -/
structure IsGrouping (keys : List ForeignKey) (groups : List (String × List ForeignKey)) :
    Prop where
  /-- Together the groups hold each key as often as it was given. -/
  all : (groups.flatMap (·.2)).Perm keys
  /-- The group of a table holds each key that starts there as often as it was given. -/
  own : ∀ e ∈ groups, e.2.Perm (startingAt keys e.1)
  nonempty : ∀ e ∈ groups, e.2 ≠ []
  increasing : groups.Pairwise fun d e => compare d.1 e.1 = .lt
  sorted : ∀ e ∈ groups, e.2.Pairwise fun a b => (compare a b).isLE

/-- What grouping makes is a grouping of the foreign keys. -/
theorem isGrouping_groupForeignKeys (keys : List ForeignKey) :
    IsGrouping keys (groupForeignKeys keys).entries := by
  have hentry : ∀ e ∈ (groupForeignKeys keys).entries, startingAt keys e.1 ≠ [] ∧
      e.2 = (startingAt keys e.1).mergeSort fun a b => (compare a b).isLE := by
    intro e he
    have hget := SortedMap.get?_of_mem_entries he
    rw [get?_groupForeignKeys] at hget
    split at hget
    · cases hget
    · next hne => exact ⟨hne, (Option.some.inj hget).symm⟩
  have hown : ∀ e ∈ (groupForeignKeys keys).entries, e.2.Perm (startingAt keys e.1) := by
    intro e he
    rw [(hentry e he).2]
    exact List.mergeSort_perm _ _
  refine ⟨flatMap_groupForeignKeys keys, hown, ?_, (groupForeignKeys keys).sorted, ?_⟩
  · intro e he hnil
    have hperm := hown e he
    rw [hnil, List.nil_perm] at hperm
    exact (hentry e he).1 hperm
  · intro e he
    rw [(hentry e he).2]
    exact List.pairwise_mergeSort ForeignKey.isLE_trans ForeignKey.isLE_total _

/-! ## The text -/

namespace DriftReport

variable (r : DriftReport) {keys : List ForeignKey}

/-- The lines on relations do not depend on the order of the foreign keys. -/
theorem relationLines_perm (h : keys.Perm r.foreignKeys) :
    ({ r with foreignKeys := keys } : DriftReport).relationLines = r.relationLines := by
  rw [relationLines, relationLines, groupForeignKeys_perm h, h.length_eq]
  rfl

/-- No section of a report depends on the order of the foreign keys. -/
theorem sectionLines_perm (h : keys.Perm r.foreignKeys) (c : Comparison) :
    ({ r with foreignKeys := keys } : DriftReport).sectionLines c = r.sectionLines c := by
  cases c with
  | sync => rfl
  | usage => rfl
  | relations => rw [sectionLines, sectionLines, r.relationLines_perm h]; rfl

/-- **The text of a report does not depend on the order of the foreign keys.** It shows them in
groups that hold every key as often as it was given, in the group of its own table, with the tables
in order and each group in order. -/
theorem renderText_perm_invariant (k : Check) :
    (∀ keys, keys.Perm r.foreignKeys →
      ({ r with foreignKeys := keys } : DriftReport).renderText k = r.renderText k) ∧
    IsGrouping r.foreignKeys (groupForeignKeys r.foreignKeys).entries := by
  refine ⟨fun keys h => ?_, isGrouping_groupForeignKeys r.foreignKeys⟩
  have hsections :
      k.comparisons.flatMap ({ r with foreignKeys := keys } : DriftReport).sectionLines =
        k.comparisons.flatMap r.sectionLines :=
    List.flatMap_congr fun c _ => r.sectionLines_perm h c
  rw [renderText, renderText, textLines, textLines, hsections]
  rfl

end DriftReport

/-- A report in which one foreign key stands twice and two start at one table. -/
def repeatingReport : DriftReport :=
  ⟨.empty, [⟨"posts", "user_id", "users", "id"⟩, ⟨"likes", "post_id", "posts", "id"⟩,
    ⟨"posts", "forum_id", "forums", "id"⟩, ⟨"posts", "user_id", "users", "id"⟩], 0, "", ""⟩

/-- A report with a repeated foreign key reads the same with its foreign keys in another order. -/
theorem repeatingReport_reversed :
    repeatingReport.foreignKeys.reverse ≠ repeatingReport.foreignKeys ∧
    ({ repeatingReport with foreignKeys := repeatingReport.foreignKeys.reverse } :
      DriftReport).renderText .all = repeatingReport.renderText .all ∧
    IsGrouping repeatingReport.foreignKeys
      (groupForeignKeys repeatingReport.foreignKeys).entries := by
  obtain ⟨htext, hgroups⟩ := repeatingReport.renderText_perm_invariant .all
  exact ⟨by decide, htext _ (List.reverse_perm _), hgroups⟩

end SchemaDrift
