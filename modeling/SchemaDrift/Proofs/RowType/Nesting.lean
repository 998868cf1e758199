import SchemaDrift.Proofs.RowType.Slices
import SchemaDrift.Proofs.Scan.Matching

/-!
# Names inside brackets

The brackets of the body of an object type are of four kinds (`brackets`), and `openAt?` says which
of them are open at an offset. The scan for members counts three of the kinds, so in a nested body
it knows how many of these are open (`Scanned.depth_eq`) and records no name inside them. It does
not count angle brackets. It records a name inside of these only if a separator stands before the
name and a colon behind it in the same pair of angle brackets (`member_brackets`).
-/

namespace SchemaDrift.RowType

open SchemaDrift.Scan

variable {body s t l x : List Char} {offset depth i : Nat} {arrow fresh : Bool} {c : Char}
  {stack : List (Nat × Char)} {ps : List Piece}

/-! ## Four kinds of brackets -/

/-- The symbol that closes what a symbol of a type opens. -/
def typeCloserOf? (c : Char) : Option Char :=
  if c = '<' then some '>' else closerOf? c

/-- Whether a symbol of a type opens or closes a bracket of one of the four kinds. -/
def isTypeBracket (c : Char) : Bool :=
  isOpener c || isCloser c || c == '<' || c == '>'

/-- The brackets in the code of some pieces, with their offsets. What closes an arrow is none, so
`arrow` says whether an equals sign stands just before. -/
def bracketsFrom : (arrow : Bool) → (offset : Nat) → List Piece → List (Nat × Char)
  | _, _, [] => []
  | arrow, offset, .code c :: ps =>
    if isTypeBracket c && !(arrow && c == '>') then (offset, c) :: bracketsFrom false (offset + 1) ps
    else bracketsFrom (c == '=') (offset + 1) ps
  | _, offset, p :: ps => bracketsFrom false (offset + p.text.length) ps

/-- The brackets that are open behind a bracket, the innermost first, given those open before it.
There is no answer if the bracket closes another one than the innermost. -/
def openBehind? (stack : List (Nat × Char)) (b : Nat × Char) : Option (List (Nat × Char)) :=
  if (typeCloserOf? b.2).isSome then some (b :: stack)
  else
    match stack with
    | [] => none
    | o :: stack => if typeCloserOf? o.2 = some b.2 then some stack else none

/-- The brackets of a body, with their offsets. -/
def brackets (body : List Char) : List (Nat × Char) :=
  bracketsFrom false 0 (codePieces .typeScript body)

/-- The brackets of a body are nested: each is closed, the innermost first. -/
def ProperlyNested (body : List Char) : Prop :=
  (brackets body).foldlM openBehind? [] = some []

instance (body : List Char) : Decidable (ProperlyNested body) :=
  inferInstanceAs (Decidable (_ = _))

/-- The brackets of a body that are open at an offset, the innermost first. -/
def openAt? (body : List Char) (i : Nat) : Option (List (Nat × Char)) :=
  ((brackets body).takeWhile fun b => b.1 < i).foldlM openBehind? []

/-- A symbol that opens nothing has no symbol that closes it. -/
theorem closerOf?_of_isOpener (h : isOpener c = false) : closerOf? c = none := by
  simp only [isOpener, Bool.or_eq_false_iff, beq_eq_false_iff_ne] at h
  simp [closerOf?, h]

/-- Behind a bracket, as many brackets of the three kinds are open as a scan counts that leaves out
angle brackets. -/
theorem countP_of_openBehind? {b : Nat × Char} {stack' : List (Nat × Char)}
    (h : openBehind? stack b = some stack') :
    stack'.countP (·.2 != '<') = depthAfter (stack.countP (·.2 != '<')) b.2 := by
  unfold openBehind? at h
  split at h
  · next hopens =>
    obtain rfl := Option.some.inj h
    by_cases hangle : b.2 = '<'
    · simp [hangle, depthAfter, isOpener, isCloser]
    · have hopen : isOpener b.2 := by
        by_contra hno
        rw [typeCloserOf?, if_neg hangle, closerOf?_of_isOpener (Bool.eq_false_iff.2 hno)] at hopens
        cases hopens
      rw [depthAfter, if_pos hopen, List.countP_cons_of_pos (by simpa using hangle)]
  · next hopens =>
    split at h
    · cases h
    · next o rest =>
      split at h
      · next hclose =>
        obtain rfl := Option.some.inj h
        rw [typeCloserOf?] at hclose
        split at hclose
        · next hangle =>
          rw [← Option.some.inj hclose]
          simp [hangle, depthAfter, isOpener, isCloser]
        · next hangle =>
          rw [List.countP_cons_of_pos (by simpa using hangle)]
          rcases closerOf?_eq_some_iff.1 hclose with ⟨-, hb⟩ | ⟨-, hb⟩ | ⟨-, hb⟩ <;>
            simp [hb, depthAfter, isOpener, isCloser]
      · cases h

/-- Behind a bracket, no other is open than the bracket itself and those before it. -/
theorem mem_of_openBehind? {b o : Nat × Char} {stack' : List (Nat × Char)}
    (h : openBehind? stack b = some stack') (ho : o ∈ stack') : o = b ∨ o ∈ stack := by
  unfold openBehind? at h
  split at h
  · obtain rfl := Option.some.inj h
    exact List.mem_cons.1 ho
  · split at h
    · cases h
    · split at h
      · obtain rfl := Option.some.inj h
        exact .inr (List.mem_cons_of_mem _ ho)
      · cases h

/-- The brackets of pieces stand at their offset or behind it. -/
theorem le_of_mem_bracketsFrom {b : Nat × Char} (h : b ∈ bracketsFrom arrow offset ps) :
    offset ≤ b.1 := by
  fun_induction bracketsFrom arrow offset ps with
  | case1 => cases h
  | case2 arrow offset c ps hc ih =>
    rcases List.mem_cons.1 h with rfl | h
    · exact Nat.le_refl _
    · exact Nat.le_of_succ_le (ih h)
  | case3 arrow offset c ps hc ih => exact Nat.le_of_succ_le (ih h)
  | case4 arrow offset p ps hp ih => exact Nat.le_trans (Nat.le_add_right ..) (ih h)

/-- A character that is neither a mark nor an angle bracket is no bracket of the four kinds. -/
theorem isTypeBracket_of_not_mark {f : Char → Bool} (hf : TypeFile.marks.any f = false)
    (hangles : ['<', '>'].any f = false) (hc : f c) : isTypeBracket c = false := by
  obtain ⟨hopen, hclose⟩ := TypeFile.isBracket_of_not_mark hf hc
  by_contra hbracket
  simp only [isTypeBracket, hopen, hclose, Bool.false_or, Bool.not_eq_false, Bool.or_eq_true,
    beq_iff_eq] at hbracket
  have hno := List.any_eq_false.1 hangles c (by simpa using hbracket)
  exact hno hc

/-! ## Places of a scan -/

/-- A place in a body where a scan for members has read up to an offset: the brackets open there,
how many of these the scan counts, and what is left. -/
structure Scanned (body : List Char) (offset depth : Nat) (stack : List (Nat × Char))
    (arrow : Bool) (s : List Char) : Prop where
  seen : ∃ bs, brackets body = bs ++ bracketsFrom arrow offset (codePieces .typeScript s) ∧
    (∀ b ∈ bs, b.1 < offset) ∧ bs.foldlM openBehind? [] = some stack
  code : codeOffsets offset (codePieces .typeScript s) <:+
    codeOffsets 0 (codePieces .typeScript body)
  opened : ∀ b ∈ stack, b.1 < offset
  depth_eq : depth = stack.countP (·.2 != '<')

namespace Scanned

/-- The scan begins with nothing read and nothing open. -/
theorem start (body : List Char) : Scanned body 0 0 [] false body where
  seen := ⟨[], rfl, by simp, rfl⟩
  code := List.suffix_rfl
  opened := by simp
  depth_eq := rfl

/-- The brackets open at a place are those that are open up to the next bracket. -/
theorem openAt?_eq (h : Scanned body offset depth stack arrow s) (hi : offset ≤ i)
    (hnext : ∀ b ∈ bracketsFrom arrow offset (codePieces .typeScript s), i ≤ b.1) :
    openAt? body i = some stack := by
  obtain ⟨bs, hbrackets, hbefore, hopen⟩ := h.seen
  have hrest : (bracketsFrom arrow offset (codePieces .typeScript s)).takeWhile
      (fun b => decide (b.1 < i)) = [] := by
    rw [List.takeWhile_eq_nil_iff]
    intro hlt hin
    exact absurd (of_decide_eq_true hin) (Nat.not_lt.2 (hnext _ (List.getElem_mem hlt)))
  rw [openAt?, hbrackets, List.takeWhile_append_of_pos, hrest, List.append_nil, hopen]
  intro b hb
  exact decide_eq_true (Nat.lt_of_lt_of_le (hbefore b hb) hi)

/-- The brackets open at a place are those of the scan there. -/
theorem openAt?_here (h : Scanned body offset depth stack arrow s) :
    openAt? body offset = some stack :=
  h.openAt?_eq (Nat.le_refl _) fun _ => le_of_mem_bracketsFrom

/-- A literal is passed over. -/
theorem literal (h : Scanned body offset depth stack arrow (l ++ t))
    (hl : literal? .typeScript (l ++ t) = some l) :
    Scanned body (offset + l.length) depth stack false t := by
  obtain ⟨⟨bs, hbrackets, hbefore, hopen⟩, hcode, hopened, hdepth⟩ := h
  rw [codePieces_of_literal hl] at hbrackets hcode
  refine ⟨⟨bs, hbrackets, fun b hb => ?_, hopen⟩, hcode, fun b hb => ?_, hdepth⟩
  · exact Nat.lt_of_lt_of_le (hbefore b hb) (Nat.le_add_right ..)
  · exact Nat.lt_of_lt_of_le (hopened b hb) (Nat.le_add_right ..)

/-- A symbol of code changes which brackets are open. -/
theorem symbol (h : Scanned body offset depth stack arrow (c :: s)) (hbody : ProperlyNested body)
    (hl : literal? .typeScript (c :: s) = none) : ∃ stack' arrow',
      Scanned body (offset + 1) (depthAfter depth c) stack' arrow' s ∧
        (isTypeBracket c = false → stack' = stack) := by
  obtain ⟨⟨bs, hbrackets, hbefore, hopen⟩, hcode, hopened, hdepth⟩ := h
  rw [codePieces_of_none hl] at hbrackets hcode
  replace hcode := (codeOffsets_suffix (.code c) _ offset).trans hcode
  have hlater : ∀ b ∈ bs, b.1 < offset + 1 := fun b hb => Nat.lt_succ_of_lt (hbefore b hb)
  have hlater' : ∀ b ∈ stack, b.1 < offset + 1 := fun b hb => Nat.lt_succ_of_lt (hopened b hb)
  rw [bracketsFrom] at hbrackets
  split at hbrackets
  · next hbracket =>
    -- The rest of the body can be nested only if this bracket fits.
    have hfits := hbody
    rw [ProperlyNested, hbrackets, List.foldlM_append, hopen, Option.bind_eq_bind, Option.bind_some,
      List.foldlM_cons] at hfits
    obtain ⟨stack', hstack', -⟩ := Option.bind_eq_some_iff.1 hfits
    refine ⟨stack', false, ⟨⟨bs ++ [(offset, c)], by simp [hbrackets], fun b hb => ?_, ?_⟩, hcode,
      fun b hb => ?_, ?_⟩, fun hno => ?_⟩
    · rcases List.mem_append.1 hb with hb | hb
      · exact hlater b hb
      · exact Nat.lt_succ_of_le (Nat.le_of_eq (congrArg (·.1) (List.mem_singleton.1 hb)))
    · rw [List.foldlM_append, hopen]
      simpa using hstack'
    · rcases mem_of_openBehind? hstack' hb with rfl | hb
      · exact Nat.lt_succ_self _
      · exact hlater' b hb
    · rw [hdepth, countP_of_openBehind? hstack']
    · rw [hno] at hbracket
      cases hbracket
  · next hbracket =>
    refine ⟨stack, c == '=', ⟨⟨bs, hbrackets, hlater, hopen⟩, hcode, hlater', ?_⟩, fun _ => rfl⟩
    have hstay : isOpener c = false ∧ isCloser c = false := by
      cases hangle : c == '>' with
      | true => rw [beq_iff_eq.1 hangle]; decide
      | false =>
        simp only [hangle, Bool.and_false, Bool.not_false, Bool.and_true, isTypeBracket,
          Bool.or_false, Bool.not_eq_true, Bool.or_eq_false_iff] at hbracket
        exact hbracket.1
    rw [depthAfter, hstay.1, hstay.2, hdepth]
    rfl

/-- Characters that are neither marks nor angle brackets change nothing. -/
theorem plain {f : Char → Bool} (h : Scanned body offset depth stack arrow (x ++ t))
    (hbody : ProperlyNested body) (hf : TypeFile.marks.any f = false)
    (hangles : ['<', '>'].any f = false) (hx : ∀ c ∈ x, f c) :
    ∃ arrow', Scanned body (offset + x.length) depth stack arrow' t := by
  induction x generalizing offset arrow with
  | nil => exact ⟨arrow, h⟩
  | cons c x ih =>
    rw [List.forall_mem_cons] at hx
    have hl := literal?_of_not_opensLiteral (TypeFile.opensLiteral_of_not_mark hf hx.1) (x ++ t)
    obtain ⟨stack', arrow', hnext, hsame⟩ := h.symbol hbody hl
    rw [hsame (isTypeBracket_of_not_mark hf hangles hx.1),
      TypeFile.depthAfter_of_not_mark hf hx.1] at hnext
    rw [List.length_cons, Nat.add_comm x.length, ← Nat.add_assoc]
    exact ih hnext hx.2

/-- If the scan counts no bracket, only angle brackets are open. -/
theorem angles_of_depth (h : Scanned body offset 0 stack arrow s) : ∀ b ∈ stack, b.2 = '<' := by
  have hcount := List.countP_eq_zero.1 h.depth_eq.symm
  simpa using hcount

end Scanned

/-- A separator of members stands at an offset of a body, inside the brackets given. -/
def SeparatorAt (body : List Char) (k : Nat) (stack : List (Nat × Char)) : Prop :=
  (∃ c, (k, c) ∈ codeOffsets 0 (codePieces .typeScript body) ∧ endsMember c) ∧
    openAt? body k = some stack

/-- A colon stands at an offset of a body, inside the brackets given. -/
def ColonAt (body : List Char) (k : Nat) (stack : List (Nat × Char)) : Prop :=
  (k, ':') ∈ codeOffsets 0 (codePieces .typeScript body) ∧ openAt? body k = some stack

/-- A place where a member may begin: it is outside the three kinds of brackets that are counted,
and inside the same angle brackets as a separator before it, if it is inside any. -/
structure MayBegin (body : List Char) (i : Nat) (stack : List (Nat × Char)) : Prop where
  angles : ∀ b ∈ stack, b.2 = '<'
  behind : stack = [] ∨ ∃ k < i, SeparatorAt body k stack

/-- Where a member may begin behind a separator, it may begin further on. -/
theorem MayBegin.mono {j : Nat} (h : MayBegin body i stack) (hij : i ≤ j) :
    MayBegin body j stack :=
  ⟨h.angles, h.behind.imp_right fun ⟨k, hk, hsep⟩ => ⟨k, Nat.lt_of_lt_of_le hk hij, hsep⟩⟩

/-! ## Members and brackets -/

/-- Between a name and the colon that follows it stand only gaps and a question mark. -/
theorem exists_of_followedByColon (h : followedByColon s) :
    ∃ x t, s = x ++ ':' :: t ∧ ∀ c ∈ x, isLineGap c || c == '?' := by
  have hcolon : ∀ {u : List Char}, startsWithColon u → ∃ t, u = ':' :: t := by
    intro u hu
    unfold startsWithColon at hu
    split at hu
    · exact ⟨_, rfl⟩
    · cases hu
  have hgaps : ∀ u : List Char, ∀ c ∈ u.takeWhile isLineGap, isLineGap c || c == '?' :=
    fun u c hc => by simp [List.mem_takeWhile_imp hc]
  have hsplit : s = s.takeWhile isLineGap ++ s.dropWhile isLineGap :=
    List.takeWhile_append_dropWhile.symm
  unfold followedByColon at h
  split at h
  · next u hu =>
    obtain ⟨t, ht⟩ := hcolon h
    refine ⟨s.takeWhile isLineGap ++ '?' :: u.takeWhile isLineGap, t, ?_, fun c hc => ?_⟩
    · rw [List.append_assoc, List.cons_append, ← ht, List.takeWhile_append_dropWhile, ← hu]
      exact hsplit
    · rcases List.mem_append.1 hc with hc | hc
      · exact hgaps s c hc
      · rcases List.mem_cons.1 hc with rfl | hc
        · rfl
        · exact hgaps u c hc
  · obtain ⟨t, ht⟩ := hcolon h
    exact ⟨s.takeWhile isLineGap, t, ht ▸ hsplit, hgaps s⟩

/-- The colon behind a name is inside the same brackets. -/
theorem Scanned.exists_colonAt (h : Scanned body offset depth stack arrow s)
    (hbody : ProperlyNested body) (hs : followedByColon s) :
    ∃ k, offset ≤ k ∧ ColonAt body k stack := by
  obtain ⟨x, t, rfl, hx⟩ := exists_of_followedByColon hs
  obtain ⟨arrow', hcolon⟩ := h.plain hbody (by decide) (by decide) hx
  refine ⟨offset + x.length, Nat.le_add_right .., hcolon.code.mem ?_, hcolon.openAt?_here⟩
  rw [codePieces_of_none (literal?_of_not_opensLiteral rfl t)]
  exact List.mem_cons_self

/-- One symbol keeps a place where a member may begin if it is blank, and a separator makes one. -/
theorem Scanned.mayBegin_symbol (h : Scanned body offset depth stack arrow (c :: s))
    (hl : literal? .typeScript (c :: s) = none)
    (hbegin : fresh → MayBegin body offset stack)
    (hfresh : depth = 0 ∧ endsMember c ∨ fresh ∧ isGap c) :
    isTypeBracket c = false ∧ MayBegin body (offset + 1) stack := by
  rcases hfresh with ⟨rfl, hend⟩ | ⟨hyes, hgap⟩
  · have hcode : (offset, c) ∈ codeOffsets 0 (codePieces .typeScript body) := by
      refine h.code.mem ?_
      rw [codePieces_of_none hl]
      exact List.mem_cons_self
    refine ⟨?_, h.angles_of_depth, .inr ⟨offset, Nat.lt_succ_self _, ⟨c, hcode, hend⟩,
      h.openAt?_here⟩⟩
    obtain rfl | rfl | rfl := endsMember_iff.1 hend <;> rfl
  · refine ⟨?_, (hbegin hyes).mono (Nat.le_succ _)⟩
    simp only [isGap, Bool.or_eq_true, beq_iff_eq] at hgap
    obtain (((rfl | rfl) | rfl) | rfl) | rfl := hgap <;> rfl

/-- The scan records names only where a member may begin and a colon follows. -/
theorem mayBegin_of_mem_memberSlicesFrom (hbody : ProperlyNested body)
    (h : Scanned body offset depth stack arrow s) (hbegin : fresh → MayBegin body offset stack)
    {n : NameSlice} (hn : n ∈ memberSlicesFrom 0 depth fresh offset s) (hmember : n.isMember) :
    ∃ stack, openAt? body n.start = some stack ∧ MayBegin body n.start stack ∧
      ∃ k > n.start, ColonAt body k stack := by
  induction hs : s.length using Nat.strong_induction_on
      generalizing s offset depth fresh stack arrow with
  | _ size ih =>
    cases s with
    | nil => cases hn
    | cons c s =>
      have hcases := stepCases depth fresh c s
      obtain ⟨hpos, -⟩ := memberStep_size depth fresh c s
      rw [memberSlicesFrom_step, List.mem_append] at hn
      generalize memberStep depth fresh c s = step at hcases hpos hn
      have hless : ((c :: s).drop step.size).length < size := by
        rw [List.length_drop, ← hs, List.length_cons]
        omega
      cases hcases with
      | literal l t isMember htext hl hfirst =>
        rw [htext] at h hl hn
        have hnext := h.literal hl
        rcases hn with hn | hn
        · -- The quoted name begins behind its quote, where the same brackets are open.
          cases isMember with
          | false => simp at hn
          | true =>
            obtain ⟨rfl, hyes, hsize, hcolon⟩ := hfirst rfl
            obtain rfl : n = NameSlice.shift offset ⟨1, l.length - 1, true⟩ := by simpa using hn
            obtain ⟨k, hk, hcolon⟩ := hnext.exists_colonAt hbody hcolon
            refine ⟨stack, h.openAt?_eq (Nat.le_succ _) fun b hb => ?_,
              (hbegin hyes).mono (Nat.le_succ _), k,
              Nat.lt_of_lt_of_le (Nat.add_lt_add_left hsize offset) hk, hcolon⟩
            rw [codePieces_of_literal hl, bracketsFrom.eq_def] at hb
            have hle := le_of_mem_bracketsFrom hb
            rw [Piece.text] at hle
            show offset + 1 ≤ b.1
            omega
        · rw [List.drop_left] at hn
          rw [htext, List.drop_left] at hless
          exact ih _ hless hnext (by simp) hn rfl
      | word w t fresh' isMember htext hl hword hfresh hfirst =>
        rw [htext, ← List.cons_append] at h
        rw [htext] at hn hless
        obtain ⟨arrow', hnext⟩ := h.plain hbody (by decide) (by decide) hword
        rcases hn with hn | hn
        · obtain rfl : n = NameSlice.shift offset ⟨0, w.length + 1, isMember⟩ := by simpa using hn
          obtain ⟨-, hyes, hcolon⟩ := hfirst hmember
          obtain ⟨k, hk, hcolon⟩ := hnext.exists_colonAt hbody hcolon
          exact ⟨stack, h.openAt?_here, hbegin hyes, k,
            Nat.lt_of_lt_of_le (Nat.lt_add_of_pos_right (Nat.succ_pos _)) hk, hcolon⟩
        · rw [List.drop_succ_cons, List.drop_left] at hn hless
          exact ih _ hless hnext
            (fun hyes => (hbegin (hfresh hyes).2).mono (Nat.le_add_right ..)) hn rfl
      | symbol fresh' hl hfresh =>
        rcases hn with hn | hn
        · cases hn
        · obtain ⟨stack', arrow', hnext, hsame⟩ := h.symbol hbody hl
          refine ih _ hless hnext (fun hyes => ?_) hn rfl
          obtain ⟨hno, hlater⟩ := h.mayBegin_symbol hl hbegin (hfresh hyes)
          rw [hsame hno]
          exact hlater

/-- **Names inside brackets.** The names of the members of a body are slices of it. If the brackets
of four kinds are nested in the body, no such slice is inside a parenthesis, a bracket or a brace. A
slice inside angle brackets stands behind a separator and before a colon inside the same angle
brackets; so if no colon follows a separator directly inside angle brackets, no slice is inside
brackets of any kind. -/
theorem member_brackets {body : List Char} (hbody : ProperlyNested body) :
    memberNames body = (memberSlices body).filterMap (NameSlice.name? body) ∧
    (∀ n ∈ memberSlices body, n.isMember →
      ∃ stack, openAt? body n.start = some stack ∧ MayBegin body n.start stack ∧
        ∃ k > n.start, ColonAt body k stack) ∧
    ((∀ i k stack, i < k → SeparatorAt body i stack → ColonAt body k stack →
        (∀ b ∈ stack, b.2 = '<') → stack = []) →
      ∀ n ∈ memberSlices body, n.isMember → openAt? body n.start = some []) := by
  have hplaces : ∀ n ∈ memberSlices body, n.isMember →
      ∃ stack, openAt? body n.start = some stack ∧ MayBegin body n.start stack ∧
        ∃ k > n.start, ColonAt body k stack := fun n hn =>
    mayBegin_of_mem_memberSlicesFrom hbody (.start body) (fun _ => ⟨by simp, .inl rfl⟩) hn
  refine ⟨memberNames_eq_slices body, hplaces, fun hnone n hn hmember => ?_⟩
  obtain ⟨stack, hopen, hbegin, k, hk, hcolon⟩ := hplaces n hn hmember
  rcases hbegin.behind with rfl | ⟨i, hi, hsep⟩
  · exact hopen
  · rw [hopen, hnone i k stack (Nat.lt_trans hi hk) hsep hcolon hbegin.angles]

/-- A body with members inside braces, brackets and parentheses, and with commas and a colon directly
inside angle brackets. -/
def nestedBody : List Char :=
  ("a: \x7b x: Map<b, c>; y: [k: d] \x7d, 'e f'?: (g: h) => Record<string, i>;\n" ++
    "readonly j: Pair<k extends l ? m : n, o>").toList

/-- A comma in angle brackets and a colon before one let no name inside be recorded. -/
theorem member_brackets_nestedBody : ProperlyNested nestedBody ∧
    memberNames nestedBody = ["a".toList, "e f".toList, "j".toList] ∧
    ∀ n ∈ memberSlices nestedBody, n.isMember → openAt? nestedBody n.start = some [] := by
  have hnested : ProperlyNested nestedBody := by decide +kernel
  -- Directly inside angle brackets, every colon stands before the first separator.
  have hcolons : (codeOffsets 0 (codePieces .typeScript nestedBody)).all fun x =>
      !endsMember x.2 || (openAt? nestedBody x.1).all fun stack =>
        stack.any (·.2 != '<') || stack.isEmpty ||
          (codeOffsets 0 (codePieces .typeScript nestedBody)).all fun y =>
            y.2 != ':' || y.1 ≤ x.1 || openAt? nestedBody y.1 != some stack := by decide +kernel
  refine ⟨hnested, by decide +kernel, (member_brackets hnested).2.2 ?_⟩
  rintro i k stack hless ⟨⟨c, hc, hend⟩, hopen⟩ ⟨hcolon, hopen'⟩ hangles
  have hplace := List.all_eq_true.1 hcolons (i, c) hc
  have hno : stack.any (·.2 != '<') = false := by simpa using hangles
  rw [hend, hopen, Bool.not_true, Bool.false_or, Option.all_some, hno, Bool.false_or,
    Bool.or_eq_true] at hplace
  refine hplace.elim List.isEmpty_iff.1 fun hlater => ?_
  have hlater := List.all_eq_true.1 hlater (k, ':') hcolon
  rw [hopen'] at hlater
  simp [Nat.not_le.2 hless] at hlater

/-- A body with a conditional type inside angle brackets, over two lines. -/
def angledBody : List Char :=
  "a: Array<T extends string ?\n b : c>".toList

/-- A name inside angle brackets is taken for a member behind the end of a line. -/
theorem member_inside_angles : ProperlyNested angledBody ∧
    memberNames angledBody = ["a".toList, "b".toList] ∧
    ⟨29, 30, true⟩ ∈ memberSlices angledBody ∧ openAt? angledBody 29 = some [(8, '<')] := by
  decide +kernel

end SchemaDrift.RowType
