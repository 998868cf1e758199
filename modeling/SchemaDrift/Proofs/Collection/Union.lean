import SchemaDrift.Proofs.Collection.Lookup

/-!
# Joining sets and maps

`SortedMap.unionWith` joins two maps and combines the values of a key that both have. What is found
at a key is then decided at that key alone (`get?_unionWith`), so the laws of the combination are
laws of the join.
-/

namespace SchemaDrift

variable {κ ν : Type} [Ord κ] [Std.TransOrd κ] [Std.LawfulEqOrd κ]

namespace SortedSet

/-- A set is made again from its elements. -/
theorem ofList_toList (s : SortedSet κ) : ofList s.toList = s :=
  ext_mem fun _ => mem_ofList

/-- Joining sets is associative. -/
theorem union_assoc (s t u : SortedSet κ) : (s.union t).union u = s.union (t.union u) := by
  refine ext_mem fun a => ?_
  simp only [mem_union, or_assoc]

/-- The order in which two sets are joined does not matter. -/
theorem union_comm (s t : SortedSet κ) : s.union t = t.union s := by
  refine ext_mem fun a => ?_
  rw [mem_union, mem_union, or_comm]

/-- The elements of a list join a set as the set that they make up. -/
theorem insertMany_eq_union (s : SortedSet κ) (xs : List κ) :
    s.insertMany xs = s.union (insertMany ∅ xs) := by
  refine ext_mem fun a => ?_
  rw [mem_insertMany, mem_union, mem_insertMany]
  exact or_congr_right (or_iff_right not_mem_empty).symm

end SortedSet

namespace SortedMap

/-- The entries of either map. Where both have a value, the two are combined. -/
def unionWith (f : ν → ν → ν) (m n : SortedMap κ ν) : SortedMap κ ν :=
  n.entries.foldl (fun m e => m.update e.1 fun
    | none => e.2
    | some v => f v e.2) m

variable [DecidableEq κ] (f : ν → ν → ν)

/-- Entries that are put into a map one after another change the values at their keys, each joined
with the value that was there. -/
theorem get?_foldl_update {es : List (κ × ν)}
    (hs : es.Pairwise fun a b => compare a.1 b.1 = .lt) (m : SortedMap κ ν) (k : κ) :
    (es.foldl (fun m e => m.update e.1 fun
      | none => e.2
      | some v => f v e.2) m).get? k = Option.merge f (m.get? k) (valueAt? k es) := by
  induction es generalizing m with
  | nil => cases h : m.get? k <;> simp [h, valueAt?]
  | cons e es ih =>
    rw [List.pairwise_cons] at hs
    rw [List.foldl_cons, ih hs.2, get?_update, valueAt?]
    by_cases hk : k = e.1
    · subst hk
      -- The keys behind are greater, so none of them is changed again.
      rw [if_pos rfl, if_pos rfl, valueAt?_eq_none hs.1]
      cases m.get? e.1 <;> rfl
    · rw [if_neg hk, if_neg (Ne.symm hk)]

/-- What is found in a join is what both maps have at the key, combined. -/
theorem get?_unionWith (m n : SortedMap κ ν) (k : κ) :
    (m.unionWith f n).get? k = Option.merge f (m.get? k) (n.get? k) :=
  get?_foldl_update f n.sorted m k

omit [DecidableEq κ] in
/-- The empty map is neutral in a union. -/
theorem unionWith_empty (m : SortedMap κ ν) : m.unionWith f ∅ = m := rfl

/-- A union of maps is associative if the joining of values is. -/
theorem unionWith_assoc [Std.Associative f] (m n o : SortedMap κ ν) :
    (m.unionWith f n).unionWith f o = m.unionWith f (n.unionWith f o) := by
  refine ext_get? fun k => ?_
  simp only [get?_unionWith]
  exact Std.Associative.assoc _ _ _

/-- A change at one key that combines is a join with the map that has the change alone. -/
theorem update_eq_unionWith (m : SortedMap κ ν) (k : κ) {g : Option ν → ν}
    (hg : ∀ v, g (some v) = f v (g none)) :
    m.update k g = m.unionWith f ((∅ : SortedMap κ ν).update k g) := by
  refine ext_get? fun j => ?_
  rw [get?_unionWith, get?_update, get?_update]
  by_cases hj : j = k
  · subst hj
    rw [if_pos rfl, if_pos rfl]
    cases m.get? j with
    | none => rfl
    | some v => exact congrArg some (hg v)
  · rw [if_neg hj, if_neg hj]
    show _ = Option.merge f _ none
    cases m.get? j <;> rfl

end SortedMap

end SchemaDrift
