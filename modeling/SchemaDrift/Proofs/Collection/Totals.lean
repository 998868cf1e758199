import Mathlib.Data.List.Nodup
import SchemaDrift.Proofs.Collection.Lookup

/-!
# Counting in sets and maps

A change at one key of a map changes a sum over its values by what the value at that key contributes
(`sum_values_update`), and leaves the order of the values as it was (`map_values_update`). A set
loses one element if it loses any (`size_filter_ne`).
-/

namespace SchemaDrift

/-- A sorted set lists no element twice. -/
theorem SortedSet.nodup_toList {α : Type} [Ord α] [Std.TransOrd α] (s : SortedSet α) :
    s.toList.Nodup := by
  refine s.sorted.imp fun {a b} hlt he => ?_
  subst he
  exact compare_self_ne_lt a hlt

/-- A set without one element is smaller by one if it has the element. -/
theorem SortedSet.size_filter_ne {α : Type} [Ord α] [Std.TransOrd α] [DecidableEq α]
    (s : SortedSet α) (a : α) :
    (s.filter (· != a)).size + (if a ∈ s then 1 else 0) = s.size := by
  have hcount : s.toList.count a = if a ∈ s then 1 else 0 := by
    split
    · next ha => exact List.count_eq_one_of_mem s.nodup_toList ha
    · next ha => exact List.count_eq_zero_of_not_mem ha
  rw [← hcount, size, size, Nat.add_comm,
    List.length_eq_length_filter_add (l := s.toList) (· == a), ← List.countP_eq_length_filter]
  rfl

namespace SortedMap

variable {κ ν β : Type} [Ord κ] [Std.TransOrd κ] [Std.LawfulEqOrd κ] [DecidableEq κ]

/-- A change at one key exchanges what its value adds to a sum. -/
theorem sum_values_update (m : SortedMap κ ν) (k : κ) (f : Option ν → ν) (g : ν → Nat) :
    ((m.update k f).values.map g).foldr (· + ·) 0 + ((m.get? k).map g).getD 0 =
      (m.values.map g).foldr (· + ·) 0 + g (f (m.get? k)) := by
  obtain ⟨es, hs⟩ := m
  show (((updateSorted k f es).map (·.2)).map g).foldr (· + ·) 0 +
      ((valueAt? k es).map g).getD 0 =
    ((es.map (·.2)).map g).foldr (· + ·) 0 + g (f (valueAt? k es))
  induction es with
  | nil => simp [updateSorted, valueAt?]
  | cons e es ih =>
    rw [updateSorted]
    rw [List.pairwise_cons] at hs
    split
    · next hk =>
      have hnone : valueAt? k (e :: es) = none := valueAt?_eq_none fun x hx => by
        rcases List.mem_cons.1 hx with rfl | hx
        · exact hk
        · exact Std.TransCmp.lt_trans hk (hs.1 x hx)
      rw [hnone]
      simp only [List.map_cons, List.foldr_cons, Option.map_none, Option.getD_none]
      omega
    · next hk =>
      rw [Std.LawfulEqOrd.compare_eq_iff_eq] at hk
      simp only [valueAt?, hk, if_true, List.map_cons, List.foldr_cons, Option.map_some,
        Option.getD_some]
      omega
    · next hk =>
      have hne : e.1 ≠ k := by
        rintro rfl
        exact compare_self_ne_gt _ hk
      have hlater := ih hs.2
      simp only [valueAt?, hne, if_false, List.map_cons, List.foldr_cons]
      omega

/-- A change that keeps what is read off the value at a key keeps what is read off all values. -/
theorem map_values_update {m : SortedMap κ ν} {k : κ} {v : ν} (h : m.get? k = some v)
    {f : Option ν → ν} {g : ν → β} (hg : g (f (some v)) = g v) :
    (m.update k f).values.map g = m.values.map g := by
  have hrel : ∀ j, Option.Rel (fun a b => g a = g b) ((m.update k f).get? j) (m.get? j) := by
    intro j
    rw [get?_update]
    split
    · next hj =>
      rw [hj, h]
      exact .some hg
    · cases m.get? j with
      | none => exact .none
      | some w => exact .some rfl
  have hentries := forall₂_entries hrel
  rw [values, values, List.map_map, List.map_map, ← List.forall₂_eq_eq_eq,
    List.forall₂_map_left_iff, List.forall₂_map_right_iff]
  exact hentries.imp fun _ _ he => he.2

end SortedMap

end SchemaDrift
