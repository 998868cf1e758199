import Mathlib.Data.List.Forall2
import SchemaDrift.Collection.SortedMap

/-!
# What is found in a sorted map

Every operation on sorted maps is told by what `get?` finds afterwards: `get?_ofSet`,
`get?_mapValues` and `get?_filterKeys` stand beside `SortedMap.get?_update`. Two maps whose values
are related at every key have related entries in the same order (`forall₂_entries`), and a map is
made again from its entries (`ofList_entries`).
-/

namespace SchemaDrift.SortedMap

variable {κ ν ξ : Type} [Ord κ] [DecidableEq κ]

/-- The key of a value that is found is one of the keys. -/
theorem mem_keys {m : SortedMap κ ν} {k : κ} : k ∈ m.keys ↔ (m.get? k).isSome := by
  obtain ⟨es, hs⟩ := m
  show k ∈ es.map (·.1) ↔ (valueAt? k es).isSome
  clear hs
  induction es with
  | nil => simp [valueAt?]
  | cons e es ih =>
    rw [List.map_cons, List.mem_cons, ih, valueAt?]
    split
    · next h => simp [h]
    · next h => simp [Ne.symm h]

/-- A map made from a set has a value at the elements of the set and nowhere else. -/
theorem get?_ofSet (f : κ → ν) (s : SortedSet κ) (k : κ) :
    (ofSet f s).get? k = if k ∈ s then some (f k) else none := by
  obtain ⟨xs, hs⟩ := s
  show valueAt? k (xs.map fun k => (k, f k)) = if k ∈ xs then some (f k) else none
  clear hs
  induction xs with
  | nil => rfl
  | cons x xs ih =>
    rw [List.map_cons, valueAt?, ih]
    by_cases h : x = k
    · simp [h]
    · simp [h, Ne.symm h]

omit [DecidableEq κ] in
/-- The keys of the map of a set are the set. -/
@[simp] theorem keys_ofSet (f : κ → ν) (s : SortedSet κ) : (ofSet f s).keys = s := by
  obtain ⟨xs, hs⟩ := s
  simp [ofSet, keys, Function.comp_def]

/-- The value at a key of a mapped map is the mapped value. -/
theorem get?_mapValues (f : ν → ξ) (m : SortedMap κ ν) (k : κ) :
    (m.mapValues f).get? k = (m.get? k).map f := by
  obtain ⟨es, hs⟩ := m
  show valueAt? k (es.map fun e => (e.1, f e.2)) = (valueAt? k es).map f
  clear hs
  induction es with
  | nil => rfl
  | cons e es ih =>
    rw [List.map_cons, valueAt?, valueAt?, ih]
    split <;> rfl

/-- A map that is filtered by its keys has the old values at the keys that pass, and no others. -/
theorem get?_filterKeys (p : κ → Bool) (m : SortedMap κ ν) (k : κ) :
    (m.filterKeys p).get? k = if p k then m.get? k else none := by
  obtain ⟨es, hs⟩ := m
  show valueAt? k (es.filter fun e => p e.1) = if p k then valueAt? k es else none
  clear hs
  induction es with
  | nil => simp [valueAt?]
  | cons e es ih =>
    rw [List.filter_cons]
    by_cases hk : e.1 = k
    · subst hk
      by_cases hp : p e.1
      · simp [hp, valueAt?]
      · simp [hp, ih]
    · split
      · simp only [valueAt?, hk, if_false, ih]
      · simp only [valueAt?, hk, if_false, ih]

/-- An entry of a map holds the value at its key. -/
theorem get?_of_mem_entries [Std.TransOrd κ] {m : SortedMap κ ν} {e : κ × ν}
    (h : e ∈ m.entries) : m.get? e.1 = some e.2 := by
  obtain ⟨es, hs⟩ := m
  show valueAt? e.1 es = some e.2
  replace h : e ∈ es := h
  induction es with
  | nil => cases h
  | cons x es ih =>
    rw [List.pairwise_cons] at hs
    rcases List.mem_cons.1 h with rfl | h
    · simp [valueAt?]
    · have hne : x.1 ≠ e.1 := by
        intro he
        have hlt := hs.1 e h
        rw [he] at hlt
        exact compare_self_ne_lt _ hlt
      rw [valueAt?, if_neg hne]
      exact ih hs.2 h

/-- An entry of a map is a key with the value found there. -/
theorem mem_entries [Std.TransOrd κ] {m : SortedMap κ ν} {k : κ} {v : ν} :
    (k, v) ∈ m.entries ↔ m.get? k = some v :=
  ⟨fun h => get?_of_mem_entries h, mem_of_valueAt?_eq_some⟩

/-- A value of a map is found at some key. -/
theorem mem_values [Std.TransOrd κ] {m : SortedMap κ ν} {v : ν} :
    v ∈ m.values ↔ ∃ k, m.get? k = some v := by
  constructor
  · intro h
    obtain ⟨e, he, rfl⟩ := List.mem_map.1 h
    exact ⟨e.1, get?_of_mem_entries he⟩
  · rintro ⟨k, h⟩
    exact List.mem_map.2 ⟨(k, v), mem_entries.2 h, rfl⟩

omit [DecidableEq κ] in
/-- No key of a map stands twice. -/
theorem nodup_keys [Std.TransOrd κ] (m : SortedMap κ ν) : (m.entries.map (·.1)).Nodup := by
  refine List.Pairwise.imp (fun {j k} hlt he => ?_) m.keys.sorted
  subst he
  exact compare_self_ne_lt j hlt

/-- Maps with related values at every key have the same keys. -/
theorem keys_eq_of_rel [Std.TransOrd κ] {R : ν → ξ → Prop} {m : SortedMap κ ν}
    {n : SortedMap κ ξ} (h : ∀ k, Option.Rel R (m.get? k) (n.get? k)) : m.keys = n.keys := by
  refine SortedSet.ext_mem fun k => ?_
  have hr := h k
  rw [mem_keys, mem_keys]
  generalize m.get? k = a at hr ⊢
  generalize n.get? k = b at hr ⊢
  cases hr <;> simp

omit [DecidableEq κ] in
/-- What a choice by key picks from two maps is the same if they have the same of its keys. -/
theorem filterMap_entries_congr [Std.TransOrd κ] {β : Type} (pick : κ → Option β)
    {m n : SortedMap κ ν} (h : ∀ k, (pick k).isSome → (k ∈ m.keys ↔ k ∈ n.keys)) :
    m.entries.filterMap (fun e => pick e.1) = n.entries.filterMap (fun e => pick e.1) := by
  have hpicked : ∀ m : SortedMap κ ν, m.entries.filterMap (fun e => pick e.1) =
      (m.keys.filter fun k => (pick k).isSome).toList.filterMap pick := by
    intro m
    show _ = ((m.entries.map (·.1)).filter _).filterMap pick
    rw [List.filterMap_filter, List.filterMap_map]
    refine List.filterMap_congr fun e _ => ?_
    cases hp : pick e.1 <;> simp [hp]
  have hkeys : (m.keys.filter fun k => (pick k).isSome) =
      n.keys.filter fun k => (pick k).isSome := by
    refine SortedSet.ext_mem fun k => ?_
    rw [SortedSet.mem_filter, SortedSet.mem_filter]
    exact and_congr_left (h k)
  rw [hpicked m, hpicked n, hkeys]

/-- Maps with the same keys and related values have related entries, in the same order. -/
theorem forall₂_entries [Std.TransOrd κ] {R : ν → ξ → Prop} {m : SortedMap κ ν}
    {n : SortedMap κ ξ} (h : ∀ k, Option.Rel R (m.get? k) (n.get? k)) :
    List.Forall₂ (fun a b => a.1 = b.1 ∧ R a.2 b.2) m.entries n.entries := by
  have hfst : m.entries.map (·.1) = n.entries.map (·.1) :=
    congrArg SortedSet.toList (keys_eq_of_rel h)
  rw [List.forall₂_iff_get]
  refine ⟨by simpa using congrArg List.length hfst, fun i hi hj => ?_⟩
  have hi' : i < (m.entries.map (·.1)).length := by simpa using hi
  have hk : (m.entries.get ⟨i, hi⟩).1 = (n.entries.get ⟨i, hj⟩).1 := by
    have := List.getElem_of_eq hfst hi'
    simpa using this
  refine ⟨hk, ?_⟩
  have hr := h (m.entries.get ⟨i, hi⟩).1
  rw [get?_of_mem_entries (List.get_mem ..), hk, get?_of_mem_entries (List.get_mem ..)] at hr
  cases hr with
  | some hr => exact hr

/-! ## Listing and making again -/

section Listing

variable [Std.TransOrd κ] [Std.LawfulEqOrd κ]

/-- Insertions in the order of their keys give each key its value and leave the others. -/
theorem get?_foldl_insert {es : List (κ × ν)}
    (hs : es.Pairwise fun a b => compare a.1 b.1 = .lt) (m : SortedMap κ ν) (k : κ) :
    (es.foldl (fun m e => m.insert e.1 e.2) m).get? k = (valueAt? k es).or (m.get? k) := by
  induction es generalizing m with
  | nil => rfl
  | cons e es ih =>
    rw [List.pairwise_cons] at hs
    rw [List.foldl_cons, ih hs.2, insert, get?_update, valueAt?]
    by_cases hk : k = e.1
    · subst hk
      rw [if_pos rfl, if_pos rfl, valueAt?_eq_none hs.1]
      rfl
    · rw [if_neg hk, if_neg (Ne.symm hk)]

/-- A map is made again from its entries. -/
theorem ofList_entries (m : SortedMap κ ν) : ofList m.entries = m := by
  refine ext_get? fun k => ?_
  rw [ofList, get?_foldl_insert m.sorted, get?_empty, Option.or_none]
  rfl

end Listing

end SchemaDrift.SortedMap
