import SchemaDrift.Proofs.RowType.Members

/-!
# Where members stand

The scan for members takes slices of the body that it reads: of every word, and of every quoted name
that it records. `memberStep` says what the scan does at one place, and `memberSlices` gives the
slices of a whole scan by their offsets. The slices that are names of members are the names that the
scan records (`memberNames_eq_slices`), so a name is known with its place in the body.
-/

namespace SchemaDrift.RowType

open SchemaDrift.Scan

variable {depth : Nat} {fresh : Bool} {c : Char} {s t x : List Char}

/-- A slice of a text: the offsets where it starts and stops, and whether it is the name of a
member. -/
structure NameSlice where
  start : Nat
  stop : Nat
  isMember : Bool
deriving DecidableEq

/-- The slice at the same place of a text that begins as many symbols before. -/
def NameSlice.shift (offset : Nat) (n : NameSlice) : NameSlice :=
  ⟨offset + n.start, offset + n.stop, n.isMember⟩

/-- The name of a member that a slice of a text is. -/
def NameSlice.name? (text : List Char) (n : NameSlice) : Option (List Char) :=
  if n.isMember then some ((text.drop n.start).take (n.stop - n.start)) else none

/-- What a scan for members does at the head of a text: how many symbols it reads, how it goes on
behind them, and the slice that it takes. -/
structure MemberStep where
  size : Nat
  depth : Nat
  fresh : Bool
  slice : Option NameSlice

/-- Whether a symbol ends a member. -/
def endsMember (c : Char) : Bool :=
  c == ';' || c == ',' || c == '\n'

/-- What a scan for members does at the head of a text, where some brackets are open and a member
may begin or not. -/
def memberStep (depth : Nat) (fresh : Bool) (c : Char) (s : List Char) : MemberStep :=
  let first := decide (depth = 0) && fresh
  match literal? .typeScript (c :: s) with
  | some l =>
    let isMember := first && decide (1 < l.length) && followedByColon ((c :: s).drop l.length)
    ⟨l.length, depth, false, if isMember then some ⟨1, l.length - 1, true⟩ else none⟩
  | none =>
    if isMemberStart c then
      let word := s.takeWhile isMemberChar
      let colon := followedByColon (s.dropWhile isMemberChar)
      ⟨word.length + 1, depth, first && decide (c :: word = readonly) && !colon,
        some ⟨0, word.length + 1, first && colon⟩⟩
    else ⟨1, depthAfter depth c, decide (depth = 0) && endsMember c || fresh && isGap c, none⟩

/-- The slices that a scan for members takes from a place on, given how many symbols of it were read
before and its offset. -/
def memberSlicesFrom : (skip depth : Nat) → (fresh : Bool) → (offset : Nat) → List Char →
    List NameSlice
  | _, _, _, _, [] => []
  | skip + 1, depth, fresh, offset, _ :: s => memberSlicesFrom skip depth fresh (offset + 1) s
  | 0, depth, fresh, offset, c :: s =>
    let step := memberStep depth fresh c s
    (step.slice.map (NameSlice.shift offset)).toList ++
      memberSlicesFrom (step.size - 1) step.depth step.fresh (offset + 1) s

/-- The slices that the scan of a body for members takes, in order. -/
def memberSlices (body : List Char) : List NameSlice :=
  memberSlicesFrom 0 0 true 0 body

/-! ## One step -/

/-- The cases of a step. It reads a literal, of which it takes the inside if that is the name of a
member; or it reads a word and takes it; or it reads one symbol. -/
inductive StepCases (depth : Nat) (fresh : Bool) (c : Char) (s : List Char) : MemberStep → Prop
  | literal (l t : List Char) (isMember : Bool) (htext : c :: s = l ++ t)
      (hl : literal? .typeScript (c :: s) = some l)
      (hmember : isMember → depth = 0 ∧ fresh ∧ 1 < l.length ∧ followedByColon t) :
      StepCases depth fresh c s
        ⟨l.length, depth, false, if isMember then some ⟨1, l.length - 1, true⟩ else none⟩
  | word (w t : List Char) (fresh' isMember : Bool) (htext : s = w ++ t)
      (hl : literal? .typeScript (c :: s) = none) (hword : ∀ e ∈ c :: w, isMemberChar e)
      (hfresh : fresh' → depth = 0 ∧ fresh)
      (hmember : isMember → depth = 0 ∧ fresh ∧ followedByColon t) :
      StepCases depth fresh c s ⟨w.length + 1, depth, fresh', some ⟨0, w.length + 1, isMember⟩⟩
  | symbol (fresh' : Bool) (hl : literal? .typeScript (c :: s) = none)
      (hfresh : fresh' → depth = 0 ∧ endsMember c ∨ fresh ∧ isGap c) :
      StepCases depth fresh c s ⟨1, depthAfter depth c, fresh', none⟩

/-- A member ends at a semicolon, at a comma or at the end of a line. -/
theorem endsMember_iff : endsMember c ↔ c = ';' ∨ c = ',' ∨ c = '\n' := by
  simp [endsMember, or_assoc]

/-- A character that begins a name may stand in one. -/
theorem isMemberChar_of_isMemberStart (h : isMemberStart c) : isMemberChar c := by
  simp only [isMemberStart, isMemberChar, Char.isAlphanum, Bool.or_eq_true] at h ⊢
  grind

/-- Every step is of one of the cases. -/
theorem stepCases (depth : Nat) (fresh : Bool) (c : Char) (s : List Char) :
    StepCases depth fresh c s (memberStep depth fresh c s) := by
  rw [memberStep]
  split
  · next l hl =>
    obtain ⟨t, ht⟩ := (literal?_spec hl).2
    refine .literal l t _ ht.symm hl fun h => ?_
    rw [← ht, List.drop_left] at h
    simp only [Bool.and_eq_true, decide_eq_true_eq] at h
    exact ⟨h.1.1.1, h.1.1.2, h.1.2, h.2⟩
  · next hl =>
    split
    · next hstart =>
      refine .word (s.takeWhile isMemberChar) (s.dropWhile isMemberChar) _ _
        List.takeWhile_append_dropWhile.symm hl ?_ (fun h => ?_) fun h => ?_
      · rw [List.forall_mem_cons]
        exact ⟨isMemberChar_of_isMemberStart hstart, fun e he => List.mem_takeWhile_imp he⟩
      · simp only [Bool.and_eq_true, decide_eq_true_eq] at h
        exact h.1.1
      · simp only [Bool.and_eq_true, decide_eq_true_eq] at h
        exact ⟨h.1.1, h.1.2, h.2⟩
    · refine .symbol _ hl fun h => ?_
      simpa only [Bool.or_eq_true, Bool.and_eq_true, decide_eq_true_eq] using h

/-- A step reads at least one symbol and no more than there are. -/
theorem memberStep_size (depth : Nat) (fresh : Bool) (c : Char) (s : List Char) :
    0 < (memberStep depth fresh c s).size ∧ (memberStep depth fresh c s).size ≤ s.length + 1 := by
  have hcases := stepCases depth fresh c s
  generalize memberStep depth fresh c s = step at hcases
  cases hcases with
  | literal l t isMember htext hl hmember =>
    refine ⟨List.length_pos_iff.2 (literal?_spec hl).1, ?_⟩
    rw [← List.length_cons, htext, List.length_append]
    exact Nat.le_add_right ..
  | word w t fresh' isMember htext hl hword hfresh hmember =>
    refine ⟨Nat.succ_pos _, ?_⟩
    rw [htext, List.length_append]
    exact Nat.succ_le_succ (Nat.le_add_right ..)
  | symbol => exact ⟨Nat.one_pos, Nat.succ_le_succ (Nat.zero_le _)⟩

/-- The names that a scan records from a place on are what one step records and what it records
behind. -/
theorem memberNamesFrom_step (depth : Nat) (fresh : Bool) (c : Char) (s : List Char) :
    memberNamesFrom 0 depth fresh (c :: s) =
      ((memberStep depth fresh c s).slice.bind (NameSlice.name? (c :: s))).toList ++
        memberNamesFrom 0 (memberStep depth fresh c s).depth (memberStep depth fresh c s).fresh
          ((c :: s).drop (memberStep depth fresh c s).size) := by
  cases hl : literal? .typeScript (c :: s) with
  | some l =>
    obtain ⟨t, ht⟩ := (literal?_spec hl).2
    obtain ⟨m, rfl⟩ := exists_cons_of_literal? hl rfl
    obtain rfl : m ++ t = s := (List.cons.inj ht).2
    have hskip : memberNamesFrom ((c :: m).length - 1) depth false (m ++ t) =
        memberNamesFrom 0 depth false ((c :: (m ++ t)).drop (c :: m).length) := by
      rw [List.length_cons, Nat.add_sub_cancel, TypeFile.memberNamesFrom_skip,
        List.drop_succ_cons, List.drop_left]
    have hname : (m ++ t).take ((c :: m).length - 1 - 1) = ((c :: m).drop 1).dropLast := by
      rw [List.drop_one, List.tail_cons, List.length_cons, Nat.add_sub_cancel,
        List.dropLast_eq_take, List.take_append_of_le_length (Nat.sub_le ..)]
    simp only [memberNamesFrom, memberStep, hl, hskip, Bool.and_eq_true, decide_eq_true_eq,
      and_assoc]
    split
    · simp only [Option.bind_some, NameSlice.name?, if_true, Option.toList_some,
        List.drop_succ_cons, List.drop_zero, hname, List.singleton_append]
    · rfl
  | none =>
    by_cases hstart : isMemberStart c
    · have hword : (c :: s).take ((s.takeWhile isMemberChar).length + 1) =
          c :: s.takeWhile isMemberChar := by
        rw [List.take_succ_cons, ← List.prefix_iff_eq_take.1 (List.takeWhile_prefix _)]
      have hbehind : (c :: s).drop ((s.takeWhile isMemberChar).length + 1) =
          s.dropWhile isMemberChar := by
        have hdrop : (s.takeWhile isMemberChar ++ s.dropWhile isMemberChar).drop
            (s.takeWhile isMemberChar).length = s.dropWhile isMemberChar := List.drop_left
        rwa [List.takeWhile_append_dropWhile] at hdrop
      rw [TypeFile.memberNamesFrom_word hstart]
      simp only [memberStep, hl, hstart, if_true, Option.bind_some, NameSlice.name?, List.drop_zero,
        Nat.sub_zero, hword, hbehind]
      cases followedByColon (s.dropWhile isMemberChar) with
      | true => by_cases hfirst : depth = 0 ∧ fresh <;> simp [hfirst]
      | false =>
        by_cases hread : depth = 0 ∧ fresh ∧ c :: s.takeWhile isMemberChar = readonly
        · simp [hread]
        · have hno : (decide (depth = 0) && fresh &&
              decide (c :: s.takeWhile isMemberChar = readonly)) = false := by
            simpa [Bool.and_assoc] using hread
          simp [hread, hno]
    · have hstay : ((c :: s).drop 1) = s := rfl
      simp only [memberNamesFrom, memberStep, hl, hstart, Bool.false_eq_true, if_false,
        Option.bind_none, Option.toList_none, List.nil_append, hstay]
      obtain hopen | hclose | ⟨hopen, hclose⟩ := isBracket_cases c
      · obtain rfl | rfl | rfl := hopen <;> simp [isOpener, depthAfter, endsMember, isGap]
      · obtain rfl | rfl | rfl := hclose <;>
          simp [isOpener, isCloser, depthAfter, endsMember, isGap]
      · simp only [depthAfter, hopen, hclose, Bool.false_eq_true, if_false]
        by_cases hend : depth = 0 ∧ endsMember c
        · rw [if_pos ⟨hend.1, endsMember_iff.1 hend.2⟩]
          simp [hend]
        · have hno : (decide (depth = 0) && endsMember c) = false := by simpa using hend
          rw [if_neg (by rwa [← endsMember_iff]), hno, Bool.false_or]
          cases isGap c <;> simp

/-! ## Whole scans -/

/-- The slices are taken behind the symbols that were read before. -/
theorem memberSlicesFrom_skip (depth : Nat) (fresh : Bool) (offset : Nat) (x t : List Char) :
    memberSlicesFrom x.length depth fresh offset (x ++ t) =
      memberSlicesFrom 0 depth fresh (offset + x.length) t := by
  induction x generalizing offset with
  | nil => rfl
  | cons c x ih =>
    rw [List.length_cons, List.cons_append, memberSlicesFrom, ih, Nat.add_assoc, Nat.add_comm 1]

/-- The slices of a scan are the one that its first step takes and those that it takes behind. -/
theorem memberSlicesFrom_step (depth : Nat) (fresh : Bool) (offset : Nat) (c : Char)
    (s : List Char) :
    memberSlicesFrom 0 depth fresh offset (c :: s) =
      ((memberStep depth fresh c s).slice.map (NameSlice.shift offset)).toList ++
        memberSlicesFrom 0 (memberStep depth fresh c s).depth (memberStep depth fresh c s).fresh
          (offset + (memberStep depth fresh c s).size)
          ((c :: s).drop (memberStep depth fresh c s).size) := by
  obtain ⟨hpos, hle⟩ := memberStep_size depth fresh c s
  rw [memberSlicesFrom]
  generalize memberStep depth fresh c s = step at hpos hle
  obtain ⟨n, hn⟩ : ∃ n, step.size = n + 1 := ⟨step.size - 1, by omega⟩
  have hlength : (s.take n).length = n := by
    rw [List.length_take]
    omega
  have hskip := memberSlicesFrom_skip step.depth step.fresh (offset + 1) (s.take n) (s.drop n)
  rw [List.take_append_drop, hlength] at hskip
  rw [hn, Nat.add_sub_cancel, hskip, List.drop_succ_cons, Nat.add_assoc, Nat.add_comm 1]

/-- The name of a slice does not change with what stands in front of the text. -/
theorem NameSlice.name?_shift (front text : List Char) (n : NameSlice) :
    (n.shift front.length).name? (front ++ text) = n.name? text := by
  have hsize : front.length + n.stop - (front.length + n.start) = n.stop - n.start := by omega
  rw [name?, name?, shift, hsize, List.drop_append, List.drop_eq_nil_of_le (Nat.le_add_right ..),
    List.nil_append, Nat.add_sub_cancel_left]

/-- The names that a scan records are the slices that are names of members. -/
theorem filterMap_memberSlicesFrom (depth : Nat) (fresh : Bool) (front s : List Char) :
    (memberSlicesFrom 0 depth fresh front.length s).filterMap (NameSlice.name? (front ++ s)) =
      memberNamesFrom 0 depth fresh s := by
  induction hn : s.length using Nat.strong_induction_on generalizing depth fresh front s with
  | _ n ih =>
    cases s with
    | nil => rfl
    | cons c s =>
      obtain ⟨hpos, hle⟩ := memberStep_size depth fresh c s
      rw [memberSlicesFrom_step, memberNamesFrom_step, List.filterMap_append]
      generalize memberStep depth fresh c s = step at hpos hle
      rw [List.length_cons] at hn
      have hsplit : front ++ c :: s =
          (front ++ (c :: s).take step.size) ++ (c :: s).drop step.size := by
        rw [List.append_assoc, List.take_append_drop]
      have hlength : (front ++ (c :: s).take step.size).length = front.length + step.size := by
        rw [List.length_append, List.length_take, List.length_cons, Nat.min_eq_left hle]
      have hrest := ih _ (by rw [List.length_drop, List.length_cons]; omega) step.depth step.fresh
        (front ++ (c :: s).take step.size) ((c :: s).drop step.size) rfl
      rw [hlength, ← hsplit] at hrest
      rw [hrest]
      cases step.slice with
      | none => rfl
      | some slice =>
        rw [Option.map_some, Option.toList_some, List.filterMap_cons, NameSlice.name?_shift,
          Option.bind_some]
        cases slice.name? (c :: s) <;> rfl

/-- The names of the members of a body are those slices that are names of members. -/
theorem memberNames_eq_slices (body : List Char) :
    memberNames body = (memberSlices body).filterMap (NameSlice.name? body) :=
  (filterMap_memberSlicesFrom 0 true [] body).symm

end SchemaDrift.RowType
