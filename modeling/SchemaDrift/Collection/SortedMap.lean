import SchemaDrift.Collection.SortedSet

/-!
# Maps kept in order

A map is the list of its entries with strictly increasing keys, so maps with the same values at
every key are equal (`SortedMap.ext_get?`). `update` changes the value at one key, present or not,
and `get?_update` says what can then be found.
-/

namespace SchemaDrift

/-- A map from keys to values, in increasing order of its keys. -/
structure SortedMap (κ ν : Type) [Ord κ] where
  entries : List (κ × ν)
  sorted : entries.Pairwise fun a b => compare a.1 b.1 = .lt
deriving DecidableEq

variable {κ ν ξ : Type} [Ord κ]

/-- Changes the value at a key in a list of entries with increasing keys. -/
def updateSorted (k : κ) (f : Option ν → ν) : List (κ × ν) → List (κ × ν)
  | [] => [(k, f none)]
  | e :: es =>
    match compare k e.1 with
    | .lt => (k, f none) :: e :: es
    | .eq => (e.1, f (some e.2)) :: es
    | .gt => e :: updateSorted k f es

/-- The value that a list of entries first gives to a key. -/
def valueAt? [DecidableEq κ] (k : κ) : List (κ × ν) → Option ν
  | [] => none
  | e :: es => if e.1 = k then some e.2 else valueAt? k es

/-- A key that comes before all keys of a list has no value in it. -/
theorem valueAt?_eq_none [DecidableEq κ] [Std.TransOrd κ] {k : κ} {es : List (κ × ν)}
    (h : ∀ e ∈ es, compare k e.1 = .lt) : valueAt? k es = none := by
  induction es with
  | nil => rfl
  | cons e es ih =>
    have hne : e.1 ≠ k := by
      rintro rfl
      exact compare_self_ne_lt _ (h e List.mem_cons_self)
    simp [valueAt?, hne, ih fun x hx => h x (List.mem_cons_of_mem _ hx)]

/-- An update brings in no key but its own. -/
theorem fst_mem_updateSorted [Std.LawfulEqOrd κ] {k : κ} {f : Option ν → ν} {es : List (κ × ν)}
    {e : κ × ν} (h : e ∈ updateSorted k f es) : e.1 = k ∨ ∃ e' ∈ es, e'.1 = e.1 := by
  induction es with
  | nil => simp [updateSorted] at h; simp [h]
  | cons e' es ih =>
    rw [updateSorted] at h
    split at h
    · rcases List.mem_cons.1 h with rfl | h
      · exact .inl rfl
      · exact .inr ⟨e, h, rfl⟩
    · rcases List.mem_cons.1 h with rfl | h
      · exact .inr ⟨e', List.mem_cons_self, rfl⟩
      · exact .inr ⟨e, List.mem_cons_of_mem _ h, rfl⟩
    · rcases List.mem_cons.1 h with rfl | h
      · exact .inr ⟨e, List.mem_cons_self, rfl⟩
      · exact (ih h).imp id fun ⟨x, hx, he⟩ => ⟨x, List.mem_cons_of_mem _ hx, he⟩

/-- An update keeps the keys in ascending order. -/
theorem pairwise_updateSorted [Std.TransOrd κ] [Std.LawfulEqOrd κ] {k : κ} {f : Option ν → ν}
    {es : List (κ × ν)} (h : es.Pairwise fun a b => compare a.1 b.1 = .lt) :
    (updateSorted k f es).Pairwise fun a b => compare a.1 b.1 = .lt := by
  induction es with
  | nil => simp [updateSorted]
  | cons e es ih =>
    rw [List.pairwise_cons] at h
    rw [updateSorted]
    split
    · next hk =>
      refine List.pairwise_cons.2 ⟨fun c hc => ?_, List.pairwise_cons.2 h⟩
      rcases List.mem_cons.1 hc with rfl | hc
      · exact hk
      · exact Std.TransCmp.lt_trans hk (h.1 c hc)
    · exact List.pairwise_cons.2 h
    · next hk =>
      refine List.pairwise_cons.2 ⟨fun c hc => ?_, ih h.2⟩
      rcases fst_mem_updateSorted hc with hc | ⟨c', hc', he⟩
      · rw [hc]; exact Std.OrientedCmp.lt_of_gt hk
      · rw [← he]; exact h.1 c' hc'

namespace SortedMap

/-- The map without entries. -/
def empty : SortedMap κ ν :=
  ⟨[], .nil⟩

instance : EmptyCollection (SortedMap κ ν) := ⟨empty⟩

instance : Inhabited (SortedMap κ ν) := ⟨empty⟩

/-- The value at a key. -/
def get? [DecidableEq κ] (m : SortedMap κ ν) (k : κ) : Option ν :=
  valueAt? k m.entries

/-- Whether a key has a value. -/
def contains [DecidableEq κ] (m : SortedMap κ ν) (k : κ) : Bool :=
  (m.get? k).isSome

/-- The number of entries. -/
def size (m : SortedMap κ ν) : Nat :=
  m.entries.length

/-- Whether there is no entry. -/
def isEmpty (m : SortedMap κ ν) : Bool :=
  m.entries.isEmpty

/-- The values in the order of their keys. -/
def values (m : SortedMap κ ν) : List ν :=
  m.entries.map (·.2)

/-- The keys. -/
def keys (m : SortedMap κ ν) : SortedSet κ :=
  ⟨m.entries.map (·.1), List.pairwise_map.2 m.sorted⟩

/-- The map with every value changed. -/
def mapValues (f : ν → ξ) (m : SortedMap κ ν) : SortedMap κ ξ :=
  ⟨m.entries.map fun e => (e.1, f e.2), List.pairwise_map.2 m.sorted⟩

/-- The entries whose keys satisfy a test. -/
def filterKeys (p : κ → Bool) (m : SortedMap κ ν) : SortedMap κ ν :=
  ⟨m.entries.filter fun e => p e.1, m.sorted.filter _⟩

/-- The map that gives every element of a set its value. -/
def ofSet (f : κ → ν) (s : SortedSet κ) : SortedMap κ ν :=
  ⟨s.toList.map fun k => (k, f k), List.pairwise_map.2 s.sorted⟩

section Laws

variable [Std.TransOrd κ] [Std.LawfulEqOrd κ]

/-- The map with the value at a key changed. -/
def update (m : SortedMap κ ν) (k : κ) (f : Option ν → ν) : SortedMap κ ν :=
  ⟨updateSorted k f m.entries, pairwise_updateSorted m.sorted⟩

/-- The map with a new value at a key. -/
def insert (m : SortedMap κ ν) (k : κ) (v : ν) : SortedMap κ ν :=
  m.update k fun _ => v

/-- The map with the entries of a list, the last value of a key counting. -/
def ofList (es : List (κ × ν)) : SortedMap κ ν :=
  es.foldl (fun m e => m.insert e.1 e.2) empty

variable [DecidableEq κ]

omit [Std.TransOrd κ] [Std.LawfulEqOrd κ] in
/-- The empty map has no value at any key. -/
@[simp] theorem get?_empty (k : κ) : (empty : SortedMap κ ν).get? k = none := rfl

omit [Std.TransOrd κ] in
/-- An update leaves the values at other keys. -/
theorem valueAt?_updateSorted_of_ne {k j : κ} (h : j ≠ k) (f : Option ν → ν)
    (es : List (κ × ν)) : valueAt? j (updateSorted k f es) = valueAt? j es := by
  induction es with
  | nil => simp [updateSorted, valueAt?, Ne.symm h]
  | cons e es ih =>
    rw [updateSorted]
    split
    · simp [valueAt?, Ne.symm h]
    · next hk =>
      rw [Std.LawfulEqOrd.compare_eq_iff_eq] at hk
      simp [valueAt?, ← hk, Ne.symm h]
    · simp [valueAt?, ih]

/-- The value at the updated key is made from the one before. -/
theorem valueAt?_updateSorted_self {k : κ} (f : Option ν → ν) {es : List (κ × ν)}
    (h : es.Pairwise fun a b => compare a.1 b.1 = .lt) :
    valueAt? k (updateSorted k f es) = some (f (valueAt? k es)) := by
  induction es with
  | nil => simp [updateSorted, valueAt?]
  | cons e es ih =>
    rw [updateSorted]
    split
    · next hk =>
      have hn : valueAt? k (e :: es) = none := valueAt?_eq_none fun x hx => by
        rcases List.mem_cons.1 hx with rfl | hx
        · exact hk
        · exact Std.TransCmp.lt_trans hk ((List.pairwise_cons.1 h).1 x hx)
      rw [hn, valueAt?, if_pos rfl]
    · next hk =>
      rw [Std.LawfulEqOrd.compare_eq_iff_eq] at hk
      simp [valueAt?, hk]
    · next hk =>
      have hne : e.1 ≠ k := by
        rintro rfl
        exact compare_self_ne_gt _ hk
      simp [valueAt?, hne, ih (List.pairwise_cons.1 h).2]

/-- What is found in a map after a change at one key. -/
theorem get?_update (m : SortedMap κ ν) (k j : κ) (f : Option ν → ν) :
    (m.update k f).get? j = if j = k then some (f (m.get? k)) else m.get? j := by
  split
  · next h => subst h; exact valueAt?_updateSorted_self f m.sorted
  · next h => exact valueAt?_updateSorted_of_ne h f m.entries

omit [Ord κ] [Std.TransOrd κ] [Std.LawfulEqOrd κ] in
/-- The value at a key stands in the list together with the key. -/
theorem mem_of_valueAt?_eq_some {k : κ} {v : ν} {es : List (κ × ν)}
    (h : valueAt? k es = some v) : (k, v) ∈ es := by
  induction es with
  | nil => simp [valueAt?] at h
  | cons e es ih =>
    rw [valueAt?] at h
    split at h
    · next he => cases h; subst he; exact List.mem_cons_self
    · exact List.mem_cons_of_mem _ (ih h)

omit [Std.LawfulEqOrd κ] in
/-- Sorted lists with the same value at every key are equal. -/
theorem entries_eq_of_valueAt? {xs ys : List (κ × ν)}
    (hx : xs.Pairwise fun a b => compare a.1 b.1 = .lt)
    (hy : ys.Pairwise fun a b => compare a.1 b.1 = .lt)
    (h : ∀ k, valueAt? k xs = valueAt? k ys) : xs = ys := by
  induction xs generalizing ys with
  | nil =>
    cases ys with
    | nil => rfl
    | cons y ys => simpa [valueAt?] using h y.1
  | cons x xs ih =>
    cases ys with
    | nil => simpa [valueAt?] using h x.1
    | cons y ys =>
      rw [List.pairwise_cons] at hx hy
      have hxy : x = y := by
        have h₁ := mem_of_valueAt?_eq_some ((h x.1).symm.trans (by simp [valueAt?]; rfl))
        have h₂ := mem_of_valueAt?_eq_some ((h y.1).trans (by simp [valueAt?]; rfl))
        rcases List.mem_cons.1 h₁ with h₁ | h₁
        · exact h₁
        rcases List.mem_cons.1 h₂ with h₂ | h₂
        · exact h₂.symm
        exact absurd (Std.TransCmp.lt_trans (hy.1 _ h₁) (hx.1 _ h₂)) (compare_self_ne_lt _)
      subst hxy
      refine congrArg _ (ih hx.2 hy.2 fun k => ?_)
      have hk := h k
      simp only [valueAt?] at hk
      split at hk
      · next he => rw [← he, valueAt?_eq_none hx.1, valueAt?_eq_none hy.1]
      · exact hk

omit [Std.LawfulEqOrd κ] in
/-- Maps with the same value at every key are equal. -/
theorem ext_get? {m n : SortedMap κ ν} (h : ∀ k, m.get? k = n.get? k) : m = n := by
  obtain ⟨xs, hx⟩ := m
  obtain ⟨ys, hy⟩ := n
  congr
  exact entries_eq_of_valueAt? hx hy h

end Laws

end SortedMap

end SchemaDrift
