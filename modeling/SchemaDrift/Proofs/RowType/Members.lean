import SchemaDrift.Proofs.RowType.Declaration

/-!
# The members of a rendered row

The scan for members goes over the type of a member without recording anything
(`memberNamesFrom_inside`): a name inside brackets is at the wrong depth, and no name outside of
them is followed by a colon (`Colonless`). At the name of a member it records the name
(`memberNamesFrom_member`). So the members of a row are read off in order (`memberNames_body`).
-/

namespace SchemaDrift.TypeFile

open Text Scan Migration RowType

variable {f : Char → Bool} {c : Char} {s rest : List Char} {ps : List Piece} {depth : Nat}
  {fresh : Bool}

/-! ## Inside a type -/

/-- What may stand behind a type: a separator, or the space that ends the body of a row. -/
inductive Ending : List Char → Prop
  | nil : Ending []
  | space : Ending [' ']
  | separator (sep : Separator) (s : List Char) : Ending (sep.char :: s)

/-- The rest of the pieces of a type, where a number of brackets are open. -/
structure Inside (depth : Nat) (ps : List Piece) : Prop where
  terminated : ∀ p ∈ ps, p.isTerminated
  nested : nestedFrom depth ps
  colons : colonsFrom depth ps

/-- A type is read from its start with no bracket open. -/
theorem TypeText.inside (t : TypeText) : Inside 0 (codePieces .typeScript t.chars) where
  terminated := t.isTerminated
  nested := nestedFrom_of_balancedFrom t.parentheses t.squares t.braces
  colons := t.colons

/-- At the end of a type, no bracket is open. -/
theorem Inside.depth_eq_zero (h : Inside depth []) : depth = 0 :=
  beq_iff_eq.1 h.nested

/-- A symbol of a type begins no literal, is no colon outside brackets, and opens or closes what it
does. -/
theorem Inside.code (h : Inside depth (.code c :: ps)) :
    opensLiteral c = false ∧ (c = ':' → depth ≠ 0) ∧ Inside (depthAfter depth c) ps := by
  obtain ⟨hterminated, hnested, hcolons⟩ := h
  rw [List.forall_mem_cons] at hterminated
  simp only [nestedFrom, colonsFrom, Bool.and_eq_true, Bool.or_eq_true, bne_iff_ne] at hnested hcolons
  refine ⟨by simpa [Piece.isTerminated] using hterminated.1, fun hc => ?_,
    ⟨hterminated.2, hnested.2, hcolons.2⟩⟩
  exact hcolons.1.resolve_left (not_not.2 hc)

/-- A literal in a type opens and closes nothing. -/
theorem Inside.tail_literal (h : Inside depth (.literal s :: ps)) : Inside depth ps :=
  ⟨(List.forall_mem_cons.1 h.terminated).2, h.nested, h.colons⟩

/-- The symbols that mean something to a scan of members: quotes, brackets and separators. -/
def marks : List Char :=
  ['\'', '"', '`', '(', '[', '{', ')', ']', '}', ';', ',', '\n']

/-- A class without marks holds none of them. -/
theorem not_mem_marks (hf : marks.any f = false) (hc : f c) : c ∉ marks := by
  intro hmark
  rw [eq_false_of_any hf c hmark] at hc
  cases hc

/-- A character of a class without marks begins no literal. -/
theorem opensLiteral_of_not_mark (hf : marks.any f = false) (hc : f c) : opensLiteral c = false := by
  by_contra h
  simp only [opensLiteral, Bool.not_eq_false, Bool.or_eq_true, beq_iff_eq] at h
  refine not_mem_marks hf hc ?_
  obtain (rfl | rfl) | rfl := h <;> decide

/-- A character of a class without marks is no bracket. -/
theorem isBracket_of_not_mark (hf : marks.any f = false) (hc : f c) :
    isOpener c = false ∧ isCloser c = false := by
  obtain hopen | hclose | hneither := isBracket_cases c
  · refine absurd ?_ (not_mem_marks hf hc)
    obtain rfl | rfl | rfl := hopen <;> decide
  · refine absurd ?_ (not_mem_marks hf hc)
    obtain rfl | rfl | rfl := hclose <;> decide
  · exact hneither

/-- A character of a class without marks opens and closes nothing. -/
theorem depthAfter_of_not_mark (hf : marks.any f = false) (hc : f c) : depthAfter depth c = depth := by
  simp [depthAfter, isBracket_of_not_mark hf hc]

/-- A separator is a mark. -/
theorem Separator.mem_marks (sep : Separator) : sep.char ∈ marks := by
  cases sep <;> decide

/-- A run of characters that are no marks ends within a type, or reaches what is behind it. -/
theorem Inside.dropWhile (h : Inside depth ps) (hf : marks.any f = false) (rest : List Char) :
    ∃ qs, qs.length ≤ ps.length ∧ Inside depth qs ∧
      ((ps.flatMap Piece.text ++ rest).dropWhile f = qs.flatMap Piece.text ++ rest ∨
        qs = [] ∧ (ps.flatMap Piece.text ++ rest).dropWhile f = rest.dropWhile f) := by
  induction ps with
  | nil => exact ⟨[], Nat.le_refl 0, h, .inr ⟨rfl, rfl⟩⟩
  | cons p ps ih =>
    obtain ⟨c, rfl, -⟩ | ⟨q, s, rfl, hq, -⟩ :=
      Piece.isTerminated_cases (h.terminated p List.mem_cons_self)
    · by_cases hc : f c
      · have hps := h.code.2.2
        rw [depthAfter_of_not_mark hf hc] at hps
        obtain ⟨qs, hlength, hqs, hdrop⟩ := ih hps
        refine ⟨qs, Nat.le_succ_of_le hlength, hqs, ?_⟩
        simpa [Piece.text, hc] using hdrop
      · exact ⟨_, Nat.le_refl _, h, .inl (by simp [Piece.text, hc])⟩
    · have hstop : f q = false := by
        by_contra hc
        rw [opensLiteral_of_not_mark hf (by simpa using hc)] at hq
        cases hq
      exact ⟨_, Nat.le_refl _, h, .inl (by simp [Piece.text, hstop])⟩

/-! ## No colon outside brackets -/

/-- The rest of a type outside its brackets, and what may stand behind it. -/
def Colonless (s : List Char) : Prop :=
  ∃ ps rest, Inside 0 ps ∧ Ending rest ∧ s = ps.flatMap Piece.text ++ rest

namespace Colonless

/-- Dropping characters of a class without marks reaches no colon. -/
theorem dropWhile (h : Colonless s) (hf : marks.any f = false) : Colonless (s.dropWhile f) := by
  obtain ⟨ps, rest, hps, hrest, rfl⟩ := h
  obtain ⟨qs, -, hqs, hdrop | ⟨rfl, hdrop⟩⟩ := hps.dropWhile hf rest
  · exact ⟨qs, rest, hqs, hrest, hdrop⟩
  · refine ⟨[], rest.dropWhile f, hqs, ?_, hdrop⟩
    cases hrest with
    | nil => exact .nil
    | space =>
      cases hspace : f ' ' with
      | true => simpa [hspace] using Ending.nil
      | false => simpa [hspace] using Ending.space
    | separator sep s =>
      rw [List.dropWhile_cons_of_neg (by simp [eq_false_of_any hf _ sep.mem_marks])]
      exact .separator sep s

/-- Behind a question mark of a type stands no colon outside brackets either. -/
theorem behind_question (h : Colonless ('?' :: s)) : Colonless s := by
  obtain ⟨ps, rest, hps, hrest, heq⟩ := h
  cases ps with
  | nil =>
    cases hrest with
    | nil => cases heq
    | space => cases heq
    | separator sep s =>
      cases sep <;> cases heq
  | cons p ps =>
    obtain ⟨c, rfl, -⟩ | ⟨q, l, rfl, hq, -⟩ :=
      Piece.isTerminated_cases (hps.terminated p List.mem_cons_self)
    · obtain ⟨rfl, rfl⟩ := List.cons_eq_cons.1 heq
      exact ⟨ps, rest, hps.code.2.2, hrest, rfl⟩
    · obtain ⟨rfl, -⟩ := List.cons_eq_cons.1 heq
      cases hq

/-- The rest of a type does not begin with a colon. -/
theorem startsWithColon (h : Colonless s) : startsWithColon s = false := by
  have hhead : ∀ t, s ≠ ':' :: t := by
    rintro t rfl
    obtain ⟨ps, rest, hps, hrest, heq⟩ := h
    cases ps with
    | nil =>
      cases hrest with
      | nil => cases heq
      | space => cases heq
      | separator sep s => cases sep <;> cases heq
    | cons p ps =>
      obtain ⟨c, rfl, -⟩ | ⟨q, l, rfl, hq, -⟩ :=
        Piece.isTerminated_cases (hps.terminated p List.mem_cons_self)
      · obtain ⟨rfl, -⟩ := List.cons_eq_cons.1 heq
        exact hps.code.2.1 rfl rfl
      · obtain ⟨rfl, -⟩ := List.cons_eq_cons.1 heq
        cases hq
  unfold RowType.startsWithColon
  split
  · next t => exact absurd rfl (hhead t)
  · rfl

/-- The rest of a type does not go on like a member. -/
theorem followedByColon (h : Colonless s) : followedByColon s = false := by
  have hgap : marks.any isLineGap = false := by decide
  have hdrop := h.dropWhile hgap
  unfold RowType.followedByColon
  split
  · next t heq =>
    rw [heq] at hdrop
    exact (hdrop.behind_question.dropWhile hgap).startsWithColon
  · exact hdrop.startsWithColon

end Colonless

/-! ## Steps of the scan -/

/-- The scan skips the symbols that were read before. -/
theorem memberNamesFrom_skip (depth : Nat) (fresh : Bool) (x rest : List Char) :
    memberNamesFrom x.length depth fresh (x ++ rest) = memberNamesFrom 0 depth fresh rest := by
  induction x with
  | nil => rfl
  | cons c x ih => exact ih

/-- A space changes nothing. -/
theorem memberNamesFrom_space (s : List Char) :
    memberNamesFrom 0 depth fresh (' ' :: s) = memberNamesFrom 0 depth fresh s := by
  rw [memberNamesFrom, literal?_of_not_opensLiteral rfl]
  simp [isOpener, isCloser, isGap]

/-- Behind a separator outside brackets a member may begin. -/
theorem memberNamesFrom_separator (sep : Separator) (s : List Char) :
    memberNamesFrom 0 0 fresh (sep.char :: s) = memberNamesFrom 0 0 true s := by
  cases sep <;> (rw [memberNamesFrom, literal?_of_not_opensLiteral rfl]; rfl)

/-- A literal is passed over where no colon follows it. -/
theorem memberNamesFrom_literal {q : Char} (hq : opensLiteral q) (hs : endsLiteral q s)
    (h : depth = 0 → followedByColon rest = false) :
    memberNamesFrom 0 depth fresh (q :: (s ++ rest)) = memberNamesFrom 0 depth false rest := by
  have hdrop : (q :: (s ++ rest)).drop (q :: s).length = rest := List.drop_left
  have hno : ¬(depth = 0 ∧ fresh ∧ 1 < (q :: s).length ∧
      followedByColon ((q :: (s ++ rest)).drop (q :: s).length)) := by
    rintro ⟨hdepth, -, -, hcolon⟩
    rw [hdrop, h hdepth] at hcolon
    cases hcolon
  rw [memberNamesFrom, literal?_append hq hs]
  show (if _ then _ else memberNamesFrom ((q :: s).length - 1) depth false (s ++ rest)) = _
  rw [if_neg hno, List.length_cons, Nat.add_sub_cancel, memberNamesFrom_skip]

/-- At a word the scan takes all of it. Whether the word is recorded depends on what follows. -/
theorem memberNamesFrom_word (hc : isMemberStart c) (s : List Char) :
    memberNamesFrom 0 depth fresh (c :: s) =
      let behind := s.dropWhile isMemberChar
      let word := c :: s.takeWhile isMemberChar
      if depth = 0 ∧ fresh ∧ word = readonly ∧ !followedByColon behind then
        memberNamesFrom 0 depth true behind
      else if depth = 0 ∧ fresh ∧ followedByColon behind then
        word :: memberNamesFrom 0 depth false behind
      else memberNamesFrom 0 depth false behind := by
  have hmarks : marks.any isMemberStart = false := by decide
  have hbracket := isBracket_of_not_mark hmarks hc
  have hseparator : ¬(depth = 0 ∧ (c = ';' ∨ c = ',' ∨ c = '\n')) := by
    rintro ⟨-, rfl | rfl | rfl⟩ <;> cases hc
  have hgap : isGap c = false := by
    by_contra hgap
    simp only [isGap, Bool.not_eq_false, Bool.or_eq_true, beq_iff_eq] at hgap
    obtain (((rfl | rfl) | rfl) | rfl) | rfl := hgap <;> cases hc
  have hskip : ∀ fresh, memberNamesFrom (s.takeWhile isMemberChar).length depth fresh s =
      memberNamesFrom 0 depth fresh (s.dropWhile isMemberChar) := by
    intro fresh
    have h := memberNamesFrom_skip depth fresh (s.takeWhile isMemberChar)
      (s.dropWhile isMemberChar)
    rwa [List.takeWhile_append_dropWhile] at h
  rw [memberNamesFrom, literal?_of_not_opensLiteral (opensLiteral_of_not_mark hmarks hc)]
  simp only [hbracket, hseparator, hgap, hc, hskip, if_false, if_true, Bool.false_eq_true]

/-- A symbol of another kind than those before ends the place where a member may begin. -/
theorem memberNamesFrom_other (hquote : opensLiteral c = false) (hopen : isOpener c = false)
    (hclose : isCloser c = false) (hseparator : ¬(c = ';' ∨ c = ',' ∨ c = '\n'))
    (hgap : isGap c = false) (hstart : isMemberStart c = false) (s : List Char) :
    memberNamesFrom 0 depth fresh (c :: s) = memberNamesFrom 0 depth false s := by
  rw [memberNamesFrom, literal?_of_not_opensLiteral hquote]
  simp [hopen, hclose, hseparator, hgap, hstart]

/-! ## Types -/

/-- Outside words, a symbol of the code of a type changes the depth and nothing is recorded. -/
theorem memberNamesFrom_symbol (depth : Nat) (fresh : Bool) (hquote : opensLiteral c = false)
    (hstart : isMemberStart c = false) (s : List Char) :
    ∃ fresh', memberNamesFrom 0 depth fresh (c :: s) =
      memberNamesFrom 0 (depthAfter depth c) fresh' s := by
  rw [memberNamesFrom, literal?_of_not_opensLiteral hquote]
  simp only [hstart, Bool.false_eq_true, if_false]
  unfold depthAfter
  split
  · exact ⟨_, rfl⟩
  · split
    · exact ⟨_, rfl⟩
    · split
      · exact ⟨_, rfl⟩
      · split
        · exact ⟨_, rfl⟩
        · exact ⟨_, rfl⟩

/-- The scan goes over the rest of a type and records nothing. -/
theorem memberNamesFrom_inside (h : Inside depth ps) (hrest : Ending rest) :
    ∃ fresh', memberNamesFrom 0 depth fresh (ps.flatMap Piece.text ++ rest) =
      memberNamesFrom 0 0 fresh' rest := by
  -- A word takes several pieces at once, so the induction is on how many are left.
  induction hn : ps.length using Nat.strong_induction_on generalizing ps depth fresh with
  | _ n ih =>
  subst hn
  have hcolonless : ∀ {qs}, Inside depth qs → depth = 0 →
      followedByColon (qs.flatMap Piece.text ++ rest) = false := by
    rintro qs hqs rfl
    exact Colonless.followedByColon ⟨qs, rest, hqs, hrest, rfl⟩
  cases ps with
  | nil =>
    obtain rfl := h.depth_eq_zero
    exact ⟨fresh, rfl⟩
  | cons p ps =>
    rw [List.flatMap_cons, List.append_assoc]
    obtain ⟨c, rfl, hquote⟩ | ⟨q, s, rfl, hq, hs⟩ :=
      Piece.isTerminated_cases (h.terminated p List.mem_cons_self)
    · obtain ⟨-, -, hps⟩ := h.code
      show ∃ fresh', memberNamesFrom 0 depth fresh (c :: (ps.flatMap Piece.text ++ rest)) = _
      by_cases hc : isMemberStart c
      · have hmember : marks.any isMemberChar = false := by decide
        have hstart : marks.any isMemberStart = false := by decide
        rw [depthAfter_of_not_mark hstart hc] at hps
        obtain ⟨qs, hlength, hqs, hdrop⟩ := hps.dropWhile hmember rest
        have hbehind : (ps.flatMap Piece.text ++ rest).dropWhile isMemberChar =
            qs.flatMap Piece.text ++ rest := by
          obtain hdrop | ⟨rfl, hdrop⟩ := hdrop
          · exact hdrop
          · rw [hdrop]
            cases hrest with
            | nil => rfl
            | space => rfl
            | separator sep s => cases sep <;> rfl
        have hnext : ∀ fresh, ∃ fresh', memberNamesFrom 0 depth fresh
            (qs.flatMap Piece.text ++ rest) = memberNamesFrom 0 0 fresh' rest :=
          fun _ => ih qs.length (Nat.lt_succ_of_le hlength) hqs rfl
        rw [memberNamesFrom_word hc]
        simp only [hbehind]
        split
        · exact hnext true
        · split
          · next hrecord =>
            rw [hcolonless hqs hrecord.1] at hrecord
            cases hrecord.2.2
          · exact hnext false
      · obtain ⟨fresh', hstep⟩ := memberNamesFrom_symbol depth fresh hquote
          (by simpa using hc) (ps.flatMap Piece.text ++ rest)
        rw [hstep]
        exact ih ps.length (Nat.lt_succ_self _) hps rfl
    · have hps := h.tail_literal
      show ∃ fresh', memberNamesFrom 0 depth fresh
        (q :: (s ++ (ps.flatMap Piece.text ++ rest))) = _
      rw [memberNamesFrom_literal hq hs (hcolonless hps)]
      exact ih ps.length (Nat.lt_succ_self _) hps rfl

/-! ## Members -/

/-- The type of a member is passed over, and no name in it is recorded. -/
theorem memberNamesFrom_type (t : TypeText) (hrest : Ending rest) :
    ∃ fresh', memberNamesFrom 0 0 fresh (t.chars ++ rest) = memberNamesFrom 0 0 fresh' rest := by
  rw [← flatMap_text_codePieces (d := .typeScript) t.chars]
  exact memberNamesFrom_inside t.inside hrest

/-- A plain character may stand in the name of a member. -/
theorem isMemberChar_of_isPlain (h : isPlain c) : isMemberChar c := by
  simp only [isPlain] at h
  simp [isMemberChar, h]

/-- Behind the name of a member stands its colon. -/
theorem Member.followedByColon_ending (m : Member) (rest : List Char) :
    followedByColon (m.ending ++ rest) := by
  unfold Member.ending
  split <;> rfl

/-- The marks behind a name are passed over, and so is the type. -/
theorem memberNamesFrom_ending (m : Member) (hrest : Ending rest) :
    ∃ fresh', memberNamesFrom 0 0 false (m.ending ++ rest) = memberNamesFrom 0 0 fresh' rest := by
  have hcolon : memberNamesFrom 0 0 false (':' :: ' ' :: (m.type.chars ++ rest)) =
      memberNamesFrom 0 0 false (m.type.chars ++ rest) := by
    rw [memberNamesFrom_other rfl rfl rfl (by decide) rfl rfl, memberNamesFrom_space]
  have hmarks : memberNamesFrom 0 0 false (m.ending ++ rest) =
      memberNamesFrom 0 0 false (m.type.chars ++ rest) := by
    unfold Member.ending
    split
    · show memberNamesFrom 0 0 false ('?' :: ':' :: ' ' :: (m.type.chars ++ rest)) = _
      rw [memberNamesFrom_other rfl rfl rfl (by decide) rfl rfl, hcolon]
    · exact hcolon
  rw [hmarks]
  exact memberNamesFrom_type m.type hrest

/-- The name of a member is recorded, even if it is the word for read-only members. -/
theorem memberNamesFrom_name (m : Member) (hrest : Ending rest) :
    ∃ fresh', memberNamesFrom 0 0 true (m.name.chars ++ (m.ending ++ rest)) =
      m.name.chars :: memberNamesFrom 0 0 fresh' rest := by
  obtain ⟨c, w, hname, hstart, -, hw⟩ := m.name.exists_cons
  have hmember : ∀ d ∈ w, isMemberChar d := fun d hd => isMemberChar_of_isPlain (hw d hd)
  have hstop : ∀ d ∈ (m.ending ++ rest).head?, isMemberChar d = false := by
    intro d hd
    obtain rfl | rfl := m.head?_ending rest d hd <;> rfl
  have htake : (w ++ (m.ending ++ rest)).takeWhile isMemberChar = w :=
    takeWhile_append_of_stop hmember hstop
  have hdrop : (w ++ (m.ending ++ rest)).dropWhile isMemberChar = m.ending ++ rest :=
    dropWhile_append_of_stop hmember hstop
  obtain ⟨fresh', hending⟩ := memberNamesFrom_ending m hrest
  refine ⟨fresh', ?_⟩
  rw [hname, List.cons_append, memberNamesFrom_word (isMemberStart_of_isNameStart hstart)]
  simp only [htake, hdrop, m.followedByColon_ending rest, hending]
  simp

/-- The word for read-only members is passed over where a name follows it. -/
theorem memberNamesFrom_readonly (n : Name) (rest : List Char) :
    memberNamesFrom 0 0 true (readonly ++ ' ' :: (n.chars ++ rest)) =
      memberNamesFrom 0 0 true (n.chars ++ rest) := by
  have hcolon : followedByColon (' ' :: (n.chars ++ rest)) = false := by
    obtain ⟨c, w, hname, -, hc, -⟩ := n.exists_cons
    have hne : ∀ d, isPlain d = false → c ≠ d := fun d hd => ne_of_class hc hd
    have hgap : isLineGap c = false := by
      simp [isLineGap, hne ' ' rfl, hne '\t' rfl, hne '\r' rfl]
    have hspace : isLineGap ' ' := rfl
    rw [hname, followedByColon, List.dropWhile_cons_of_pos hspace, List.cons_append,
      List.dropWhile_cons_of_neg (by simp [hgap])]
    split
    · next heq => exact absurd (List.cons_eq_cons.1 heq).1 (hne '?' rfl)
    · unfold startsWithColon
      split
      · next heq => exact absurd (List.cons_eq_cons.1 heq).1 (hne ':' rfl)
      · rfl
  show memberNamesFrom 0 0 true ('r' :: (readonly.tail ++ ' ' :: (n.chars ++ rest))) = _
  have hmember : ∀ d ∈ readonly.tail, isMemberChar d :=
    List.all_eq_true.1 (rfl : readonly.tail.all isMemberChar = true)
  have hstop : ∀ d ∈ (' ' :: (n.chars ++ rest)).head?, isMemberChar d = false := by
    rintro d ⟨⟩
    rfl
  rw [memberNamesFrom_word rfl, takeWhile_append_of_stop hmember hstop,
    dropWhile_append_of_stop hmember hstop]
  simp only [hcolon]
  rw [if_pos ⟨trivial, trivial, rfl, rfl⟩, memberNamesFrom_space]

/-- A member is recorded by its name. -/
theorem memberNamesFrom_member (m : Member) (hrest : Ending rest) :
    ∃ fresh', memberNamesFrom 0 0 true (m.chars ++ rest) =
      m.name.chars :: memberNamesFrom 0 0 fresh' rest := by
  obtain ⟨fresh', hname⟩ := memberNamesFrom_name m hrest
  refine ⟨fresh', ?_⟩
  rw [← hname, Member.chars, List.append_assoc, List.append_assoc]
  split
  · rw [List.append_assoc]
    exact memberNamesFrom_readonly m.name (m.ending ++ rest)
  · rfl

/-- Members are recorded by their names, in order. -/
theorem memberNamesFrom_members (ms : Members) :
    memberNamesFrom 0 0 true (ms.chars ++ [' ']) = ms.toList.map (·.name.chars) := by
  have hend : ∀ fresh, memberNamesFrom 0 0 fresh [' '] = [] :=
    fun fresh => memberNamesFrom_space []
  induction ms with
  | nil => exact hend true
  | single m =>
    obtain ⟨fresh', hmember⟩ := memberNamesFrom_member m .space
    exact hmember.trans (congrArg _ (hend fresh'))
  | cons m sep ms ih =>
    obtain ⟨fresh', hmember⟩ :=
      memberNamesFrom_member m (.separator sep (ms.chars ++ [' ']))
    rw [Members.chars, List.append_assoc, List.cons_append, hmember, memberNamesFrom_separator, ih]
    rfl

/-- The members of a row are read off its body, in order. -/
theorem memberNames_body (d : Declaration) :
    (memberNames d.body).map String.ofList = d.columns := by
  rw [memberNames, Declaration.body, memberNamesFrom_space, memberNamesFrom_members, List.map_map]
  rfl

end SchemaDrift.TypeFile
