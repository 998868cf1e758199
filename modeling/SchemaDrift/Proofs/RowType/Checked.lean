import SchemaDrift.Proofs.RowType.Heads
import SchemaDrift.Proofs.RowType.Slices
import SchemaDrift.Proofs.Scan.Checked
import SchemaDrift.Proofs.Scan.Closed

/-!
# Reading type files in checked steps

A type file is read once more, by offsets of bytes and in checked steps: its comments are blanked
byte by byte, the bodies of rows are slices, and so are the words and quoted names that the scan of
the bytes of a body takes. The scan of the bytes takes the slices that the scan of the characters
takes (`memberSlices_symbols`), so that each of them begins and ends at characters. No step fails,
and the columns are those that are read by characters (`checkedExtract_eq`).
-/

namespace SchemaDrift.RowType

open SchemaDrift.Text SchemaDrift.Scan

variable {depth : Nat} {fresh : Bool} {c e : Char} {s t l : List Char}

/-! ## Symbols outside ASCII -/

/-- The characters of names are ASCII characters. -/
theorem isAscii_of_isMemberChar (h : isMemberChar c) : isAscii c := by
  rw [isMemberChar, Bool.or_eq_true, beq_iff_eq] at h
  rcases h with h | rfl
  · exact isAscii_of_isLabelChar h
  · decide

/-- A character outside ASCII belongs to no name. -/
theorem isMemberChar_of_not_isAscii (hc : isAscii c = false) : isMemberChar c = false :=
  Bool.eq_false_iff.2 fun h => by rw [isAscii_of_isMemberChar h] at hc; cases hc

/-- A character outside ASCII is no gap. -/
theorem isLineGap_of_not_isAscii (hc : isAscii c = false) : isLineGap c = false := by
  have hne : ∀ e, isAscii e → c ≠ e := fun e => ne_of_isAscii hc
  simp [isLineGap, hne ' ' (by decide), hne '\t' (by decide), hne '\r' (by decide)]

/-- A symbol outside ASCII is passed over, and no member begins behind it. -/
theorem memberStep_of_not_isAscii (hc : isAscii c = false) (depth : Nat) (fresh : Bool)
    (s : List Char) : memberStep depth fresh c s = ⟨1, depth, false, none⟩ := by
  have hne : ∀ e, isAscii e → c ≠ e := fun e => ne_of_isAscii hc
  have hstart : isMemberStart c = false := Bool.eq_false_iff.2 fun h => by
    rw [isAscii_of_isMemberChar (isMemberChar_of_isMemberStart h)] at hc
    cases hc
  have hends : endsMember c = false := by
    simp [endsMember, hne ';' (by decide), hne ',' (by decide), hne '\n' (by decide)]
  have hgap : isGap c = false := by
    simp [isGap, hne ' ' (by decide), hne '\t' (by decide), hne '\n' (by decide),
      hne '\x0c' (by decide), hne '\r' (by decide)]
  simp [memberStep, literal?_of_not_isAscii hc, hstart, depthAfter_of_not_isAscii hc, hends, hgap]

/-! ## Colons -/

/-- A text begins with a colon if one comes first and no other one second. -/
theorem startsWithColon_iff :
    startsWithColon s ↔ ∃ t, s = ':' :: t ∧ t.head? ≠ some ':' := by
  rw [startsWithColon.eq_def]
  split
  · simp
  · next hno => simpa using fun t ht => absurd ht (hno t)

/-- The bytes of a text begin with a colon exactly if the text does. -/
theorem startsWithColon_symbols (s : List Char) :
    startsWithColon (symbols s) = startsWithColon s := by
  have hcolon : isAscii ':' := by decide
  rw [Bool.eq_iff_iff, startsWithColon_iff, startsWithColon_iff]
  constructor
  · rintro ⟨t, hs, ht⟩
    obtain ⟨u, hu⟩ := List.head?_eq_some_iff.1
      ((head?_symbols_eq_iff hcolon s).1 (by rw [hs]; rfl))
    rw [hu, symbols_cons_of_isAscii hcolon] at hs
    rw [← (List.cons.inj hs).2, ne_eq, head?_symbols_eq_iff hcolon] at ht
    exact ⟨u, hu, ht⟩
  · rintro ⟨t, rfl, ht⟩
    refine ⟨symbols t, symbols_cons_of_isAscii hcolon t, ?_⟩
    rwa [ne_eq, head?_symbols_eq_iff hcolon]

/-- Behind a question mark, the colon is looked for again. -/
theorem followedByColon_of_question (h : s.dropWhile isLineGap = '?' :: t) :
    followedByColon s = startsWithColon (t.dropWhile isLineGap) := by
  simp only [followedByColon, h]

/-- Without a question mark, the colon is looked for behind the gaps. -/
theorem followedByColon_of_no_question (h : (s.dropWhile isLineGap).head? ≠ some '?') :
    followedByColon s = startsWithColon (s.dropWhile isLineGap) := by
  rw [followedByColon]
  split
  · next heq =>
    rw [heq] at h
    exact absurd rfl h
  · rfl

/-- The bytes of a text go on like a member exactly if the text does. -/
theorem followedByColon_symbols (s : List Char) :
    followedByColon (symbols s) = followedByColon s := by
  have hquestion : isAscii '?' := by decide
  have hdrop := dropWhile_symbols (fun c => isLineGap_of_not_isAscii)
  by_cases h : (s.dropWhile isLineGap).head? = some '?'
  · obtain ⟨t, ht⟩ := List.head?_eq_some_iff.1 h
    have hbytes : (symbols s).dropWhile isLineGap = '?' :: symbols t := by
      rw [hdrop, ht, symbols_cons_of_isAscii hquestion]
    rw [followedByColon_of_question ht, followedByColon_of_question hbytes, hdrop,
      startsWithColon_symbols]
  · have hbytes : ((symbols s).dropWhile isLineGap).head? ≠ some '?' := by
      rwa [hdrop, ne_eq, head?_symbols_eq_iff hquestion]
    rw [followedByColon_of_no_question h, followedByColon_of_no_question hbytes, hdrop,
      startsWithColon_symbols]

/-! ## One step -/

/-- The slice at the same place of the bytes of a text. -/
def NameSlice.inBytes (text : List Char) (n : NameSlice) : NameSlice :=
  ⟨byteSize (text.take n.start), byteSize (text.take n.stop), n.isMember⟩

/-- What a step at the head of a text is on its bytes. -/
def MemberStep.inBytes (text : List Char) (step : MemberStep) : MemberStep :=
  ⟨byteSize (text.take step.size), step.depth, step.fresh, step.slice.map (NameSlice.inBytes text)⟩

/-- A literal that a colon follows ends with its quote. -/
theorem exists_of_literal?_of_followedByColon (hl : literal? .typeScript (l ++ t) = some l)
    (ht : followedByColon t) : ∃ q x, isAscii q ∧ l = q :: (x ++ [q]) := by
  have hne : t ≠ [] := by
    rintro rfl
    cases ht
  have hclosed := closesLiteral_of_literal? hl hne
  cases l with
  | nil => cases hclosed
  | cons q m =>
    obtain ⟨x, rfl⟩ := List.getLast?_eq_some_iff.1 (TypeFile.getLast?_of_endsLiteral hclosed)
    refine ⟨q, x, ?_, rfl⟩
    cases hq : isAscii q with
    | true => rfl
    | false =>
      rw [List.cons_append, literal?_of_not_isAscii hq] at hl
      cases hl

/-- The step at a literal takes its inside if a member may begin and a colon follows. -/
theorem memberStep_literal (htext : c :: s = l ++ t) (hl : literal? .typeScript (c :: s) = some l)
    (depth : Nat) (fresh : Bool) : memberStep depth fresh c s = ⟨l.length, depth, false,
      if decide (depth = 0) && fresh && followedByColon t then some ⟨1, l.length - 1, true⟩
      else none⟩ := by
  have hlength : followedByColon t → 1 < l.length := by
    intro ht
    obtain ⟨q, x, -, rfl⟩ := exists_of_literal?_of_followedByColon (htext ▸ hl) ht
    simp
  simp only [memberStep, hl]
  rw [htext, List.drop_left]
  cases ht : followedByColon t with
  | false => simp
  | true => simp [hlength ht]

/-- A step at a literal is on bytes what it is on characters. -/
theorem memberStep_symbols_of_literal (hc : isAscii c) (hl : literal? .typeScript (c :: s) = some l)
    (depth : Nat) (fresh : Bool) :
    memberStep depth fresh c (symbols s) = (memberStep depth fresh c s).inBytes (c :: s) := by
  obtain ⟨t, ht⟩ := (literal?_spec hl).2
  have htext : c :: symbols s = symbols l ++ symbols t := by
    rw [← symbols_append, ht, symbols_cons_of_isAscii hc]
  have hbytes : literal? .typeScript (c :: symbols s) = some (symbols l) := by
    rw [← symbols_cons_of_isAscii hc, literal?_symbols, hl]
    rfl
  rw [memberStep_literal htext hbytes, memberStep_literal ht.symm hl, MemberStep.inBytes,
    followedByColon_symbols, length_symbols_eq, ← ht, List.take_left]
  split
  · next hmember =>
    obtain ⟨q, x, hq, rfl⟩ := exists_of_literal?_of_followedByColon (ht.symm ▸ hl)
      (Bool.and_eq_true _ _ ▸ hmember).2
    have hone : byteSize [q] = 1 := byteSize_of_isAscii hq
    have hinside : (q :: (x ++ [q]) ++ t).take ((q :: (x ++ [q])).length - 1) = q :: x := by
      rw [← List.cons_append, List.append_assoc]
      exact List.take_left' (by simp)
    have hsize : byteSize (q :: (x ++ [q])) = byteSize (q :: x) + 1 := by
      rw [← List.cons_append, byteSize_append, hone]
    rw [Option.map_some, NameSlice.inBytes, hinside, hsize]
    simp [hone]
  · rfl

/-- A step at an ASCII character is on bytes what it is on characters. -/
theorem memberStep_symbols (hc : isAscii c) (depth : Nat) (fresh : Bool) (s : List Char) :
    memberStep depth fresh c (symbols s) = (memberStep depth fresh c s).inBytes (c :: s) := by
  cases hl : literal? .typeScript (c :: s) with
  | some l => exact memberStep_symbols_of_literal hc hl depth fresh
  | none =>
    have hbytes : literal? .typeScript (c :: symbols s) = none := by
      rw [← symbols_cons_of_isAscii hc, literal?_symbols, hl]
      rfl
    by_cases hstart : isMemberStart c
    · have hmember : ∀ e, isAscii e = false → isMemberChar e = false :=
        fun e => isMemberChar_of_not_isAscii
      have hascii : ∀ e ∈ c :: s.takeWhile isMemberChar, isAscii e :=
        List.forall_mem_cons.2 ⟨hc, fun e he => isAscii_of_isMemberChar (List.mem_takeWhile_imp he)⟩
      have hword : (symbols s).takeWhile isMemberChar = s.takeWhile isMemberChar := by
        rw [takeWhile_symbols hmember, symbols_eq_self (List.forall_mem_cons.1 hascii).2]
      have hsize : byteSize ((c :: s).take ((s.takeWhile isMemberChar).length + 1)) =
          (s.takeWhile isMemberChar).length + 1 := by
        rw [List.take_succ_cons, ← List.prefix_iff_eq_take.1 (List.takeWhile_prefix _),
          ← length_symbols_eq, symbols_eq_self hascii, List.length_cons]
      simp only [memberStep, hbytes, hl, hstart, if_true, MemberStep.inBytes, NameSlice.inBytes,
        Option.map_some, hword, dropWhile_symbols hmember, followedByColon_symbols, hsize,
        List.take_zero, byteSize_nil]
    · have hone : byteSize [c] = 1 := byteSize_of_isAscii hc
      simp [memberStep, hbytes, hl, hstart, MemberStep.inBytes, hone]

/-! ## Whole scans -/

/-- A character outside ASCII is passed over, and no member begins behind it. -/
theorem memberSlicesFrom_cons_of_not_isAscii (hc : isAscii c = false) (depth : Nat) (fresh : Bool)
    (offset : Nat) (s : List Char) :
    memberSlicesFrom 0 depth fresh offset (c :: s) =
      memberSlicesFrom 0 depth false (offset + 1) s := by
  rw [memberSlicesFrom_step, memberStep_of_not_isAscii hc]
  rfl

/-- Characters outside ASCII are passed over. -/
theorem memberSlicesFrom_append_of_not_isAscii {x : List Char} (hx : ∀ b ∈ x, isAscii b = false)
    (depth : Nat) (offset : Nat) (t : List Char) :
    memberSlicesFrom 0 depth false offset (x ++ t) =
      memberSlicesFrom 0 depth false (offset + x.length) t := by
  induction x generalizing offset with
  | nil => rfl
  | cons b x ih =>
    rw [List.forall_mem_cons] at hx
    rw [List.cons_append, memberSlicesFrom_cons_of_not_isAscii hx.1, ih hx.2, List.length_cons,
      Nat.add_assoc, Nat.add_comm 1]

/-- A slice further on in a text is further on in its bytes. -/
theorem NameSlice.inBytes_shift (front text : List Char) (n : NameSlice) :
    (n.shift front.length).inBytes (front ++ text) = (n.inBytes text).shift (byteSize front) := by
  simp only [inBytes, shift, List.take_length_add_append, byteSize_append]

/-- The scan of the bytes of a text takes the slices that the scan of the text takes. -/
theorem memberSlicesFrom_symbols (depth : Nat) (fresh : Bool) (front s : List Char) :
    memberSlicesFrom 0 depth fresh (byteSize front) (symbols s) =
      (memberSlicesFrom 0 depth fresh front.length s).map (NameSlice.inBytes (front ++ s)) := by
  induction hn : s.length using Nat.strong_induction_on generalizing depth fresh front s with
  | _ n ih =>
    cases s with
    | nil => rfl
    | cons c s =>
      rw [List.length_cons] at hn
      cases hc : isAscii c with
      | true =>
        obtain ⟨hpos, hle⟩ := memberStep_size depth fresh c s
        rw [symbols_cons_of_isAscii hc, memberSlicesFrom_step, memberSlicesFrom_step,
          memberStep_symbols hc, List.map_append]
        generalize memberStep depth fresh c s = step at hpos hle
        have hdrop : (c :: symbols s).drop (byteSize ((c :: s).take step.size)) =
            symbols ((c :: s).drop step.size) := by
          have hsplit := drop_symbols_append ((c :: s).take step.size) ((c :: s).drop step.size)
          rwa [List.take_append_drop, symbols_cons_of_isAscii hc] at hsplit
        have hlength : (front ++ (c :: s).take step.size).length = front.length + step.size := by
          rw [List.length_append, List.length_take, List.length_cons, Nat.min_eq_left hle]
        have hrest := ih _ (by rw [List.length_drop, List.length_cons]; omega) step.depth step.fresh
          (front ++ (c :: s).take step.size) ((c :: s).drop step.size) rfl
        rw [hlength, byteSize_append, List.append_assoc, List.take_append_drop, ← hdrop] at hrest
        rw [MemberStep.inBytes, hrest]
        cases step.slice with
        | none => rfl
        | some slice =>
          simp only [Option.map_some, Option.toList_some, List.map_singleton,
            NameSlice.inBytes_shift]
      | false =>
        have hbytes : ∀ b ∈ symbols [c], isAscii b = false := fun b => isAscii_of_mem_symbols hc
        have hrest := ih s.length (by omega) depth false (front ++ [c]) s rfl
        rw [byteSize_append, List.length_append, List.append_assoc, List.singleton_append] at hrest
        have hsize := length_symbols_eq [c]
        obtain ⟨b, x, hx⟩ := List.exists_cons_of_ne_nil (symbols_ne_nil c)
        rw [hx] at hbytes hsize
        rw [List.forall_mem_cons] at hbytes
        rw [memberSlicesFrom_cons_of_not_isAscii hc, symbols_cons, hx, List.cons_append,
          memberSlicesFrom_cons_of_not_isAscii hbytes.1,
          memberSlicesFrom_append_of_not_isAscii hbytes.2, Nat.add_assoc, Nat.add_comm 1,
          ← List.length_cons, hsize]
        exact hrest

/-- The scan of the bytes takes the slices that the scan of the characters takes. -/
theorem memberSlices_symbols (body : List Char) :
    memberSlices (symbols body) = (memberSlices body).map (NameSlice.inBytes body) :=
  memberSlicesFrom_symbols 0 true [] body

/-- A slice starts before it stops. -/
theorem start_le_stop_of_mem_memberSlicesFrom {skip offset : Nat} {n : NameSlice}
    (h : n ∈ memberSlicesFrom skip depth fresh offset s) : n.start ≤ n.stop := by
  induction s generalizing skip depth fresh offset with
  | nil => cases skip <;> cases h
  | cons c s ih =>
    cases skip with
    | succ skip => exact ih h
    | zero =>
      rw [memberSlicesFrom, List.mem_append, Option.mem_toList, Option.map_eq_some_iff] at h
      rcases h with ⟨m, hm, rfl⟩ | h
      · have hcases := stepCases depth fresh c s
        generalize memberStep depth fresh c s = step at hcases hm
        refine Nat.add_le_add_left ?_ offset
        cases hcases with
        | literal l t isMember htext hl hmember =>
          dsimp only at hm
          split at hm
          · next hyes =>
            cases hm
            have hlength := (hmember hyes).2.2.1
            show 1 ≤ l.length - 1
            omega
          · cases hm
        | word w t fresh' isMember htext hl hword hfresh hmember =>
          cases hm
          exact Nat.zero_le _
        | symbol => cases hm
      · exact ih h

/-! ## Names -/

/-- The names that the members of a body have, in checked steps: every slice that the scan of its
bytes takes has to be one of the body. -/
def checkedMemberNames (body : List Char) : Option (List (List Char)) :=
  gather? (fun n => (slice? body n.start n.stop).map fun name => if n.isMember then [name] else [])
    (memberSlices (symbols body))

/-- No step fails on a body, and its members are those of the reading by characters. -/
theorem checkedMemberNames_eq (body : List Char) :
    checkedMemberNames body = some (memberNames body) := by
  have hname : ∀ n ∈ memberSlices body,
      ((slice? body (n.inBytes body).start (n.inBytes body).stop).map fun name =>
        if n.isMember then [name] else []) = some (n.name? body).toList := by
    intro n hn
    rw [NameSlice.inBytes, slice?_take (start_le_stop_of_mem_memberSlicesFrom hn),
      Option.map_some, NameSlice.name?]
    split <;> rfl
  rw [checkedMemberNames, memberSlices_symbols, gather?_map, memberNames_eq_slices,
    List.filterMap_eq_flatMap_toList]
  exact gather?_eq_some hname

/-! ## Rows -/

/-- The row of a table, in checked steps. -/
def checkedRow (text : List Char) (o : Occurrence (List Char)) : Option Row :=
  (bodyBehind? .typeScript text (byteSize (text.take o.stop))).bind fun body? =>
    match body? with
    | none => some ⟨String.ofList o.value, none⟩
    | some body => (checkedMemberNames body).map fun names =>
        ⟨String.ofList o.value, some (names.map String.ofList)⟩

/-- The rows in a text without comments, in checked steps. -/
def checkedRows (text : List Char) : Option (List Row) :=
  (occurrences rowHead text).mapM (checkedRow text)

/-- The head of a row ends with the brace that opens the row. -/
theorem exists_of_mem_occurrences_rowHead {text : List Char} {o : Occurrence (List Char)}
    (h : o ∈ occurrences rowHead text) :
    ∃ x, text = x ++ '{' :: o.rest ∧ o.stop = x.length + 1 := by
  obtain ⟨u, v, rfl, hstart, hread, hstop⟩ := exists_of_mem_search h
  obtain ⟨w, a, b, e, f, g, -, -, -, -, -, hv⟩ :=
    TypeFile.parts_of_mem_read_rowHead (List.mem_of_head? hread)
  obtain ⟨x, rfl⟩ : ∃ x, v = x ++ '{' :: o.rest :=
    ⟨w ++ (a ++ ':' :: (b ++ '{' :: (e ++ (['R', 'o', 'w'] ++ (f ++ ':' :: g))))), by simp [hv]⟩
  refine ⟨u ++ x, by rw [List.append_assoc], ?_⟩
  simp only [List.length_append, List.length_cons] at hstop ⊢
  omega

/-- No step fails on a type file, and its rows are those of the reading by characters. -/
theorem checkedRows_eq (text : List Char) : checkedRows text = some (rows text) := by
  refine mapM_eq_some fun o ho => ?_
  obtain ⟨x, htext, hstop⟩ := exists_of_mem_occurrences_rowHead ho
  have hcloser : closerOf? '{' = some '}' := rfl
  rw [checkedRow, bodyBehind?_take hcloser htext hstop, Option.bind_some]
  cases enclosed? .typeScript ('{' :: o.rest) with
  | none => rfl
  | some body => simp only [checkedMemberNames_eq, Option.map_some]

/-- The columns that a type file declares, in checked steps. -/
def checkedExtract (source : Source) : Option (Extraction RowTypes) :=
  (ofByteSymbols? (blankedBytes .typeScript source.text)).bind fun text =>
    (checkedRows text.toList).map fun found =>
      { snapshot := ⟨found.foldl record ∅⟩
        diagnostics := found.filterMap (Row.diagnostic? source.name) }

/-- No step fails on a type file, and the columns are those of the reading by characters. -/
theorem checkedExtract_eq (source : Source) : checkedExtract source = some (extract source) := by
  rw [checkedExtract, blankedBytes_eq, ofByteSymbols?_symbols, Option.bind_some,
    String.toList_ofList, checkedRows_eq, Option.map_some]
  rfl

end SchemaDrift.RowType
