/-!
# Sets kept in order

A set is the strictly increasing list of its elements, so two sets with the same elements are
equal (`SortedSet.ext_mem`) and every listing comes out in order. `mem_insert`, `mem_diff`,
`mem_union`, `mem_filter` and `mem_ofList` say what each operation does to the elements.
-/

namespace SchemaDrift

variable {α : Type} [Ord α]

/-- Nothing comes before itself. -/
theorem compare_self_ne_lt [Std.TransOrd α] (a : α) : compare a a ≠ .lt := by simp

/-- Nothing comes behind itself. -/
theorem compare_self_ne_gt [Std.TransOrd α] (a : α) : compare a a ≠ .gt := by simp

/-- Puts an element in its place in an increasing list, unless it is there. -/
def insertSorted (a : α) : List α → List α
  | [] => [a]
  | b :: s =>
    match compare a b with
    | .lt => a :: b :: s
    | .eq => b :: s
    | .gt => b :: insertSorted a s

section Laws

variable [Std.LawfulEqOrd α]

/-- An insertion adds its element and keeps the others. -/
theorem mem_insertSorted {a x : α} {s : List α} : x ∈ insertSorted a s ↔ x = a ∨ x ∈ s := by
  induction s with
  | nil => simp [insertSorted]
  | cons b s ih =>
    rw [insertSorted]
    split
    · simp
    · next h => rw [Std.LawfulEqOrd.compare_eq_iff_eq] at h; simp [h]
    · simp only [List.mem_cons, ih]
      grind

/-- An insertion keeps the order. -/
theorem pairwise_insertSorted [Std.TransOrd α] {a : α} {s : List α}
    (h : s.Pairwise fun a b => compare a b = .lt) :
    (insertSorted a s).Pairwise fun a b => compare a b = .lt := by
  induction s with
  | nil => simp [insertSorted]
  | cons b s ih =>
    rw [List.pairwise_cons] at h
    rw [insertSorted]
    split
    · next hab =>
      refine List.pairwise_cons.2 ⟨fun c hc => ?_, List.pairwise_cons.2 h⟩
      rcases List.mem_cons.1 hc with rfl | hc
      · exact hab
      · exact Std.TransCmp.lt_trans hab (h.1 c hc)
    · exact List.pairwise_cons.2 h
    · next hab =>
      refine List.pairwise_cons.2 ⟨fun c hc => ?_, ih h.2⟩
      rcases mem_insertSorted.1 hc with rfl | hc
      · exact Std.OrientedCmp.lt_of_gt hab
      · exact h.1 c hc

end Laws

/-- A set of elements, in increasing order. -/
structure SortedSet (α : Type) [Ord α] where
  toList : List α
  sorted : toList.Pairwise fun a b => compare a b = .lt
deriving DecidableEq

namespace SortedSet

/-- The set without elements. -/
def empty : SortedSet α :=
  ⟨[], .nil⟩

instance : EmptyCollection (SortedSet α) := ⟨empty⟩

instance : Inhabited (SortedSet α) := ⟨empty⟩

instance : Membership α (SortedSet α) := ⟨fun s a => a ∈ s.toList⟩

instance [DecidableEq α] (a : α) (s : SortedSet α) : Decidable (a ∈ s) :=
  inferInstanceAs (Decidable (a ∈ s.toList))

/-- The number of elements. -/
def size (s : SortedSet α) : Nat :=
  s.toList.length

/-- Whether there is no element. -/
def isEmpty (s : SortedSet α) : Bool :=
  s.toList.isEmpty

/-- The elements that satisfy a test. -/
def filter (p : α → Bool) (s : SortedSet α) : SortedSet α :=
  ⟨s.toList.filter p, s.sorted.filter p⟩

/-- The elements of one set that are not in another. -/
def diff [DecidableEq α] (s t : SortedSet α) : SortedSet α :=
  s.filter fun a => decide (a ∉ t)

/-- Membership in a set is membership in its list. -/
theorem mem_def {a : α} {s : SortedSet α} : a ∈ s ↔ a ∈ s.toList := Iff.rfl

/-- The empty set has no elements. -/
@[simp] theorem not_mem_empty {a : α} : a ∉ (empty : SortedSet α) :=
  List.not_mem_nil

/-- The elements of a filtered set are those that pass. -/
@[simp] theorem mem_filter {a : α} {p : α → Bool} {s : SortedSet α} :
    a ∈ s.filter p ↔ a ∈ s ∧ p a :=
  List.mem_filter

/-- The elements of a difference are those of the first set that the second lacks. -/
@[simp] theorem mem_diff [DecidableEq α] {a : α} {s t : SortedSet α} :
    a ∈ s.diff t ↔ a ∈ s ∧ a ∉ t := by
  simp [diff]

section Laws

variable [Std.TransOrd α] [Std.LawfulEqOrd α]

/-- A set with one element more. -/
def insert (a : α) (s : SortedSet α) : SortedSet α :=
  ⟨insertSorted a s.toList, pairwise_insertSorted s.sorted⟩

/-- The elements of a set and of a list. -/
def insertMany (s : SortedSet α) (xs : List α) : SortedSet α :=
  xs.foldl (fun s a => s.insert a) s

/-- The elements of a list. -/
def ofList (xs : List α) : SortedSet α :=
  empty.insertMany xs

/-- The elements of either set. -/
def union (s t : SortedSet α) : SortedSet α :=
  s.insertMany t.toList

/-- An insertion adds its element and no other. -/
@[simp] theorem mem_insert {a b : α} {s : SortedSet α} : a ∈ s.insert b ↔ a = b ∨ a ∈ s :=
  mem_insertSorted

/-- Inserting a list adds what is in the list. -/
@[simp] theorem mem_insertMany {a : α} {s : SortedSet α} {xs : List α} :
    a ∈ s.insertMany xs ↔ a ∈ s ∨ a ∈ xs := by
  induction xs generalizing s with
  | nil => simp [insertMany]
  | cons b xs ih =>
    have h : s.insertMany (b :: xs) = (s.insert b).insertMany xs := rfl
    rw [h, ih, mem_insert, List.mem_cons]
    grind

/-- The elements of the set of a list are those of the list. -/
@[simp] theorem mem_ofList {a : α} {xs : List α} : a ∈ ofList xs ↔ a ∈ xs := by
  simp [ofList]

/-- The elements of a union are those of either set. -/
@[simp] theorem mem_union {a : α} {s t : SortedSet α} : a ∈ s.union t ↔ a ∈ s ∨ a ∈ t :=
  mem_insertMany

omit [Std.LawfulEqOrd α] in
/-- Sets with the same elements are equal. -/
theorem ext_mem {s t : SortedSet α} (h : ∀ a, a ∈ s ↔ a ∈ t) : s = t := by
  obtain ⟨xs, hx⟩ := s
  obtain ⟨ys, hy⟩ := t
  replace h : ∀ a, a ∈ xs ↔ a ∈ ys := h
  congr
  induction xs generalizing ys with
  | nil =>
    cases ys with
    | nil => rfl
    | cons y ys => exact absurd ((h y).2 List.mem_cons_self) List.not_mem_nil
  | cons x xs ih =>
    cases ys with
    | nil => exact absurd ((h x).1 List.mem_cons_self) List.not_mem_nil
    | cons y ys =>
      rw [List.pairwise_cons] at hx hy
      have hxy : x = y := by
        rcases List.mem_cons.1 ((h x).1 List.mem_cons_self) with rfl | hm
        · rfl
        rcases List.mem_cons.1 ((h y).2 List.mem_cons_self) with rfl | hm'
        · rfl
        exact absurd (Std.TransCmp.lt_trans (hy.1 x hm) (hx.1 y hm')) (compare_self_ne_lt y)
      subst hxy
      refine congrArg _ (ih hx.2 ys hy.2 fun a => ⟨fun ha => ?_, fun ha => ?_⟩)
      · rcases List.mem_cons.1 ((h a).1 (List.mem_cons_of_mem _ ha)) with rfl | hm
        · exact absurd (hx.1 a ha) (compare_self_ne_lt a)
        · exact hm
      · rcases List.mem_cons.1 ((h a).2 (List.mem_cons_of_mem _ ha)) with rfl | hm
        · exact absurd (hy.1 a ha) (compare_self_ne_lt a)
        · exact hm

end Laws

end SortedSet

end SchemaDrift
