import SchemaDrift.Query.Event

/-!
# Sorting by position

What is found in a text by several searches is put in order by its positions. The sort is stable, so
it is told by what stands at each position: a list in order that has the same things at every
position, in the same order, is the result (`mergeSort_eq_of_atPosition`).

`placed` lays out what the parts of a text hold, each at the position where its part begins. If no
part is empty, sorting the layouts of several searches gives the layout of all of them together
(`mergeSort_placed`).
-/

namespace SchemaDrift.Query

variable {α π : Type}

/-! ## Stability -/

/-- Whether a position is not behind another. -/
def notBehind (a b : Nat × α) : Bool :=
  decide (a.1 ≤ b.1)

/-- To stand not behind is transitive. -/
theorem notBehind_trans (a b c : Nat × α) (hab : notBehind a b) (hbc : notBehind b c) :
    notBehind a c :=
  decide_eq_true (Nat.le_trans (of_decide_eq_true hab) (of_decide_eq_true hbc))

/-- Of two elements, one does not stand behind the other. -/
theorem notBehind_total (a b : Nat × α) : (notBehind a b || notBehind b a) = true := by
  simp only [notBehind, Bool.or_eq_true, decide_eq_true_eq]
  exact Nat.le_total a.1 b.1

/-- What stands at a position. -/
def atPosition (i : Nat) (l : List (Nat × α)) : List (Nat × α) :=
  l.filter (·.1 == i)

/-- The elements at a position are those of the list with that position. -/
theorem mem_atPosition {i : Nat} {l : List (Nat × α)} {a : Nat × α} :
    a ∈ atPosition i l ↔ a ∈ l ∧ a.1 = i := by
  rw [atPosition, List.mem_filter, beq_iff_eq]

/-- The elements at a position in two lists are those of the first and then those of the second. -/
theorem atPosition_append (i : Nat) (l l' : List (Nat × α)) :
    atPosition i (l ++ l') = atPosition i l ++ atPosition i l' :=
  List.filter_append l l'

/-- Sorting keeps what stands at a position, in its order. -/
theorem atPosition_mergeSort (i : Nat) (l : List (Nat × α)) :
    atPosition i (l.mergeSort notBehind) = atPosition i l := by
  have hsorted : (atPosition i l).Pairwise fun a b => notBehind a b := by
    refine List.pairwise_of_forall_mem_list fun a ha b hb => decide_eq_true ?_
    exact Nat.le_of_eq ((mem_atPosition.1 ha).2.trans (mem_atPosition.1 hb).2.symm)
  have hsub : (atPosition i l).Sublist (l.mergeSort notBehind) :=
    List.sublist_mergeSort notBehind_trans notBehind_total hsorted List.filter_sublist
  have hself : (atPosition i l).filter (·.1 == i) = atPosition i l :=
    List.filter_eq_self.2 fun a ha => beq_iff_eq.2 (mem_atPosition.1 ha).2
  have hfilter := hsub.filter (·.1 == i)
  rw [hself] at hfilter
  exact (hfilter.eq_of_length ((List.mergeSort_perm l notBehind).filter _).length_eq.symm).symm

/-- Lists in order with the same things at every position are equal. -/
theorem eq_of_atPosition {l l' : List (Nat × α)} (hl : l.Pairwise fun a b => notBehind a b)
    (hl' : l'.Pairwise fun a b => notBehind a b) (h : ∀ i, atPosition i l = atPosition i l') :
    l = l' := by
  induction l generalizing l' with
  | nil =>
    cases l' with
    | nil => rfl
    | cons b l' => simpa [atPosition] using h b.1
  | cons a l ih =>
    cases l' with
    | nil => simpa [atPosition] using h a.1
    | cons b l' =>
      rw [List.pairwise_cons] at hl hl'
      have hfirst : a.1 = b.1 := by
        have ha : a ∈ b :: l' := (mem_atPosition.1 (h a.1 ▸
          mem_atPosition.2 ⟨List.mem_cons_self, rfl⟩)).1
        have hb : b ∈ a :: l := (mem_atPosition.1 (h b.1 ▸
          mem_atPosition.2 ⟨List.mem_cons_self, rfl⟩)).1
        rcases List.mem_cons.1 ha with rfl | ha
        · rfl
        · rcases List.mem_cons.1 hb with rfl | hb
          · rfl
          · exact Nat.le_antisymm (of_decide_eq_true (hl.1 b hb)) (of_decide_eq_true (hl'.1 a ha))
      have hhead := h a.1
      simp only [atPosition, List.filter_cons, beq_self_eq_true, hfirst, if_true] at hhead
      obtain ⟨rfl, -⟩ := List.cons_eq_cons.1 hhead
      refine congrArg (a :: ·) (ih hl.2 hl'.2 fun i => ?_)
      have htail := h i
      simp only [atPosition, List.filter_cons] at htail
      split at htail
      · exact (List.cons_eq_cons.1 htail).2
      · exact htail

/-- The result of a sort is the list in order that has the same things at every position. -/
theorem mergeSort_eq_of_atPosition {l l' : List (Nat × α)}
    (hl' : l'.Pairwise fun a b => notBehind a b) (h : ∀ i, atPosition i l = atPosition i l') :
    l.mergeSort notBehind = l' :=
  eq_of_atPosition (List.pairwise_mergeSort notBehind_trans notBehind_total l) hl'
    fun i => (atPosition_mergeSort i l).trans (h i)

/-! ## Layouts -/

variable {size : π → Nat} {f g h : π → List α}

/-- What the parts of a text hold, each at the position where its part begins. -/
def placed (size : π → Nat) (f : π → List α) : (start : Nat) → List π → List (Nat × α)
  | _, [] => []
  | i, p :: ps => (f p).map (i, ·) ++ placed size f (i + size p) ps

/-- What is placed from a position on stands there or behind. -/
theorem start_le_of_mem_placed {i : Nat} {ps : List π} {a : Nat × α}
    (ha : a ∈ placed size f i ps) : i ≤ a.1 := by
  induction ps generalizing i with
  | nil => cases ha
  | cons p ps ih =>
    rcases List.mem_append.1 ha with ha | ha
    · obtain ⟨x, -, rfl⟩ := List.mem_map.1 ha
      exact Nat.le_refl i
    · exact Nat.le_trans (Nat.le_add_right i (size p)) (ih ha)

/-- What is placed stands in the order of positions. -/
theorem pairwise_placed (i : Nat) (ps : List π) :
    (placed size f i ps).Pairwise fun a b => notBehind a b := by
  induction ps generalizing i with
  | nil => exact .nil
  | cons p ps ih =>
    refine List.pairwise_append.2 ⟨?_, ih _, fun a ha b hb => ?_⟩
    · refine List.pairwise_map.2 (List.pairwise_of_forall fun x y => ?_)
      exact decide_eq_true (Nat.le_refl i)
    · obtain ⟨x, -, rfl⟩ := List.mem_map.1 ha
      exact decide_eq_true (Nat.le_trans (Nat.le_add_right i (size p)) (start_le_of_mem_placed hb))

/-- What is placed is what the parts give, in order. -/
theorem map_snd_placed (i : Nat) (ps : List π) :
    (placed size f i ps).map (·.2) = ps.flatMap f := by
  induction ps generalizing i with
  | nil => rfl
  | cons p ps ih => simp [placed, ih, Function.comp_def]

/-- Before the parts of a layout there is nothing. -/
theorem atPosition_placed_of_lt {i j : Nat} (hj : j < i) (ps : List π) :
    atPosition j (placed size f i ps) = [] := by
  refine List.eq_nil_iff_forall_not_mem.2 fun a ha => ?_
  obtain ⟨hmem, rfl⟩ := mem_atPosition.1 ha
  exact absurd (start_le_of_mem_placed hmem) (Nat.not_le.2 hj)

/-- At a position stands what the part that begins there holds, or what later parts hold. -/
theorem atPosition_placed_cons (i j : Nat) (p : π) (ps : List π) :
    atPosition j (placed size f i (p :: ps)) =
      (if i = j then (f p).map (i, ·) else []) ++ atPosition j (placed size f (i + size p) ps) := by
  have hpart : atPosition j ((f p).map (i, ·)) = if i = j then (f p).map (i, ·) else [] := by
    split
    · next hij =>
      refine List.filter_eq_self.2 fun a ha => ?_
      obtain ⟨x, -, rfl⟩ := List.mem_map.1 ha
      exact beq_iff_eq.2 hij
    · next hij =>
      refine List.filter_eq_nil_iff.2 fun a ha hj => ?_
      obtain ⟨x, -, rfl⟩ := List.mem_map.1 ha
      exact hij (beq_iff_eq.1 hj)
  rw [placed, atPosition_append, hpart]

/-- Sorting three layouts of the same parts gives the layout of what the parts hold together. -/
theorem mergeSort_placed {ps : List π} (hsize : ∀ p ∈ ps, 0 < size p) (i : Nat) :
    (placed size f i ps ++ placed size g i ps ++ placed size h i ps).mergeSort notBehind =
      placed size (fun p => f p ++ g p ++ h p) i ps := by
  refine mergeSort_eq_of_atPosition (pairwise_placed i ps) fun j => ?_
  rw [atPosition_append, atPosition_append]
  induction ps generalizing i with
  | nil => rfl
  | cons p ps ih =>
    rw [List.forall_mem_cons] at hsize
    simp only [atPosition_placed_cons]
    rw [← ih hsize.2]
    split
    · next hij =>
      -- The part begins here, and nothing of the later parts does.
      have hlater : j < i + size p := by omega
      simp only [atPosition_placed_of_lt hlater, List.append_nil, List.map_append]
    · rfl

end SchemaDrift.Query
