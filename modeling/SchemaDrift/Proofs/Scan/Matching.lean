import Mathlib.Order.Bounds.Basic
import SchemaDrift.Proofs.Scan.Balanced
import SchemaDrift.Proofs.Scan.Closed
import SchemaDrift.Scan.Offset

/-!
# The bracket that closes another

The search for a closing bracket is compared with counting: in the code of the text from the opening
bracket on, the one that closes it is at the first offset up to which as many brackets of its kind
are closed as opened (`Balances`). Before that offset more are open than closed
(`countBefore_of_enclosedIn`), so the depth that the search keeps never falls below zero. A text in
which the three kinds of brackets are nested (`wellNested`) is balanced for each kind
(`balancedFrom_of_wellNested`), so the search runs over it whatever follows.
-/

namespace SchemaDrift.Scan

variable {d : Dialect} {opener closer c : Char} {v : List Char} {stack : List Char}
  {ps : List Piece} {depth i j : Nat}

/-! ## Counting symbols of code -/

/-- The symbols of code among some pieces, with their offsets. -/
def codeOffsets : (offset : Nat) → List Piece → List (Nat × Char)
  | _, [] => []
  | offset, .code c :: ps => (offset, c) :: codeOffsets (offset + 1) ps
  | offset, p :: ps => codeOffsets (offset + p.text.length) ps

/-- How often a symbol stands before an offset. -/
def countBefore (code : List (Nat × Char)) (c : Char) (j : Nat) : Nat :=
  code.countP fun x => x.1 < j && x.2 == c

/-- A symbol counts if it stands before the offset and is the one that is counted. -/
theorem countBefore_cons (i : Nat) (x : Char) (code : List (Nat × Char)) (c : Char) (j : Nat) :
    countBefore ((i, x) :: code) c j = countBefore code c j + if i < j ∧ x = c then 1 else 0 := by
  simp [countBefore, List.countP_cons]

/-- The symbols behind a piece are the last ones of all. -/
theorem codeOffsets_suffix (p : Piece) (ps : List Piece) (i : Nat) :
    codeOffsets (i + p.text.length) ps <:+ codeOffsets i (p :: ps) := by
  cases p with
  | code c => exact List.suffix_cons _ _
  | literal l | comment l => exact List.suffix_rfl

/-- The symbols of pieces stand at their offset or behind it. -/
theorem le_of_mem_codeOffsets (h : (j, c) ∈ codeOffsets i ps) : i ≤ j := by
  fun_induction codeOffsets i ps with
  | case1 => cases h
  | case2 i x ps ih =>
    rcases List.mem_cons.1 h with h | h
    · exact Nat.le_of_eq (Prod.mk.inj h).1.symm
    · exact Nat.le_of_succ_le (ih h)
  | case3 i p ps hp ih => exact Nat.le_trans (Nat.le_add_right _ _) (ih h)

/-- Before its first symbol, a text counts none. -/
theorem countBefore_eq_zero (c : Char) (h : j ≤ i) : countBefore (codeOffsets i ps) c j = 0 := by
  rw [countBefore, List.countP_eq_zero]
  rintro ⟨k, x⟩ hx
  have hle := le_of_mem_codeOffsets hx
  simp only [Bool.and_eq_true, decide_eq_true_eq, not_and]
  intro hlt
  omega

/-! ## The search as counting -/

/-- What one piece does to the search for a closing bracket: it ends the search, or it changes the
depth by what it adds to the brackets opened and closed so far. -/
theorem enclosedIn_count_step (hne : opener ≠ closer) (depth : Nat) (p : Piece) :
    (depth = 0 ∧ p = .code closer ∧ ∀ ps, enclosedIn opener closer depth (p :: ps) = some []) ∨
      ∃ n, (∀ ps, enclosedIn opener closer depth (p :: ps) =
          (enclosedIn opener closer n ps).map (p.text ++ ·)) ∧
        ∀ ps i j, i < j →
          depth + countBefore (codeOffsets i (p :: ps)) opener j +
              countBefore (codeOffsets (i + p.text.length) ps) closer j =
            n + countBefore (codeOffsets (i + p.text.length) ps) opener j +
              countBefore (codeOffsets i (p :: ps)) closer j := by
  cases p with
  | code c =>
    have hcount : ∀ ps i j e, i < j → countBefore (codeOffsets i (.code c :: ps)) e j =
        countBefore (codeOffsets (i + 1) ps) e j + if c = e then 1 else 0 := by
      intro ps i j e hij
      simp [codeOffsets, countBefore_cons, hij]
    by_cases hopen : c = opener
    · refine .inr ⟨depth + 1, fun ps => by simp [enclosedIn, hopen, Piece.text], ?_⟩
      intro ps i j hij
      rw [hcount ps i j _ hij, hcount ps i j _ hij, if_pos hopen, if_neg (hopen ▸ hne)]
      simp only [Piece.text, List.length_singleton]
      omega
    by_cases hclose : c = closer
    · cases depth with
      | zero =>
        refine .inl ⟨rfl, by rw [hclose], fun ps => ?_⟩
        simp only [enclosedIn, if_neg hopen, if_pos hclose]
      | succ n =>
        refine .inr ⟨n, fun ps => by simp only [enclosedIn, if_neg hopen, if_pos hclose]; rfl, ?_⟩
        intro ps i j hij
        rw [hcount ps i j _ hij, hcount ps i j _ hij, if_neg hopen, if_pos hclose]
        simp only [Piece.text, List.length_singleton]
        omega
    · refine .inr ⟨depth, fun ps => by simp [enclosedIn, hopen, hclose, Piece.text], ?_⟩
      intro ps i j hij
      rw [hcount ps i j _ hij, hcount ps i j _ hij, if_neg hopen, if_neg hclose]
      simp only [Piece.text, List.length_singleton]
      omega
  | literal | comment =>
    exact .inr ⟨depth, fun ps => by rw [enclosedIn.eq_def], fun ps i j _ => rfl⟩

/-- Before the bracket that the search finds, or anywhere if it finds none, too few brackets are
closed to end it. -/
theorem countBefore_of_enclosedIn (hne : opener ≠ closer) (depth i : Nat)
    (hj : ∀ v, enclosedIn opener closer depth ps = some v → j ≤ i + v.length) :
    countBefore (codeOffsets i ps) closer j <
      depth + 1 + countBefore (codeOffsets i ps) opener j := by
  induction ps generalizing depth i with
  | nil => exact Nat.lt_of_lt_of_le (Nat.succ_pos depth) (Nat.le_add_right _ _)
  | cons p ps ih =>
    rcases Nat.lt_or_ge i j with hij | hij
    · obtain ⟨-, -, hend⟩ | ⟨n, hnext, hcount⟩ := enclosedIn_count_step hne depth p
      · exact absurd hij (Nat.not_lt.2 (hj [] (hend ps)))
      · have hrest := ih n (i + p.text.length) fun v hv => by
          have hle := hj (p.text ++ v) (by rw [hnext, hv]; rfl)
          rw [List.length_append] at hle
          omega
        have hsum := hcount ps i j hij
        omega
    · rw [countBefore_eq_zero closer hij]
      omega

/-- The search finds a closing bracket of code, up to which as many are closed as it takes. -/
theorem mem_codeOffsets_of_enclosedIn (hne : opener ≠ closer)
    (h : enclosedIn opener closer depth ps = some v) (i : Nat) :
    (i + v.length, closer) ∈ codeOffsets i ps ∧
      countBefore (codeOffsets i ps) closer (i + v.length + 1) =
        depth + 1 + countBefore (codeOffsets i ps) opener (i + v.length + 1) := by
  induction ps generalizing depth i v with
  | nil => cases h
  | cons p ps ih =>
    obtain ⟨rfl, rfl, hend⟩ | ⟨n, hnext, hcount⟩ := enclosedIn_count_step hne depth p
    · obtain rfl := Option.some.inj ((hend ps).symm.trans h)
      refine ⟨List.mem_cons_self, ?_⟩
      simp [codeOffsets, countBefore_cons, countBefore_eq_zero, Ne.symm hne]
    · rw [hnext] at h
      obtain ⟨w, hw, rfl⟩ := Option.map_eq_some_iff.1 h
      obtain ⟨hmem, hequal⟩ := ih hw (i + p.text.length)
      have hsum := hcount ps i (i + p.text.length + w.length + 1) (by omega)
      rw [List.length_append, ← Nat.add_assoc]
      exact ⟨(codeOffsets_suffix p ps i).mem hmem, by omega⟩

/-! ## Nested brackets -/

/-- Whether the brackets of all kinds are nested in a text that begins where some are to be closed,
the innermost first. -/
def wellNested : (stack : List Char) → List Piece → Bool
  | stack, [] => stack.isEmpty
  | stack, .code c :: ps =>
    match closerOf? c with
    | some closer => wellNested (closer :: stack) ps
    | none =>
      if isCloser c then
        match stack with
        | [] => false
        | closer :: stack => c == closer && wellNested stack ps
      else wellNested stack ps
  | stack, _ :: ps => wellNested stack ps

/-- There are three pairs of brackets. -/
theorem closerOf?_eq_some_iff : closerOf? opener = some closer ↔
    opener = '(' ∧ closer = ')' ∨ opener = '[' ∧ closer = ']' ∨ opener = '{' ∧ closer = '}' := by
  rw [closerOf?]
  grind

/-- A bracket does not close itself. -/
theorem ne_of_closerOf? (h : closerOf? opener = some closer) : opener ≠ closer := by
  rcases closerOf?_eq_some_iff.1 h with ⟨rfl, rfl⟩ | ⟨rfl, rfl⟩ | ⟨rfl, rfl⟩ <;> decide

/-- An opening bracket begins no literal. -/
theorem literal?_of_closerOf? (h : closerOf? opener = some closer) (d : Dialect) (s : List Char) :
    literal? d (opener :: s) = none := by
  rcases closerOf?_eq_some_iff.1 h with ⟨rfl, -⟩ | ⟨rfl, -⟩ | ⟨rfl, -⟩ <;> cases d <;> rfl

/-- Nested brackets are balanced for each kind. -/
theorem balancedFrom_of_wellNested (hkind : closerOf? opener = some closer)
    (h : wellNested stack ps) : balancedFrom opener closer (stack.count closer) ps := by
  have hpair := closerOf?_eq_some_iff.1 hkind
  fun_induction wellNested stack ps with
  | case1 stack =>
    obtain rfl := List.isEmpty_iff.1 h
    rfl
  | case2 stack c ps e he ih =>
    have hnext := ih h
    by_cases hc : c = opener
    · obtain rfl : e = closer := by
        rw [hc, hkind] at he
        exact (Option.some.inj he).symm
      rw [List.count_cons_self] at hnext
      simpa only [balancedFrom, if_pos hc] using hnext
    · have hother : e ≠ closer ∧ c ≠ closer := by
        have := closerOf?_eq_some_iff.1 he
        grind
      rw [List.count_cons_of_ne hother.1] at hnext
      simpa only [balancedFrom, if_neg hc, if_neg hother.2] using hnext
  | case3 c ps hc hclose => cases h
  | case4 c ps hc hclose e stack ih =>
    rw [Bool.and_eq_true, beq_iff_eq] at h
    obtain ⟨rfl, h⟩ := h
    have hne : c ≠ opener := by
      rintro rfl
      rw [hkind] at hc
      cases hc
    by_cases heq : c = closer
    · rw [heq, List.count_cons_self]
      simpa only [balancedFrom, if_neg (heq ▸ hne), if_true] using ih h
    · rw [List.count_cons_of_ne heq]
      simpa only [balancedFrom, if_neg hne, if_neg heq] using ih h
  | case5 stack c ps hc hclose ih =>
    have hother : c ≠ opener ∧ c ≠ closer := by
      refine ⟨fun heq => ?_, fun heq => ?_⟩
      · rw [heq, hkind] at hc
        cases hc
      · rcases hpair with ⟨-, rfl⟩ | ⟨-, rfl⟩ | ⟨-, rfl⟩ <;> exact hclose (heq ▸ rfl)
    simpa only [balancedFrom, if_neg hother.1, if_neg hother.2] using ih h
  | case6 stack p ps hp ih =>
    cases p with
    | code c => exact absurd rfl (hp c)
    | literal | comment => exact ih h

/-! ## Closing brackets of a text -/

/-- The symbols of code of a text that is read from an offset on, with their offsets in bytes. -/
def codeFrom (d : Dialect) (text : String) (offset : Nat) : List (Nat × Char) :=
  codeOffsets offset (codePieces d ((byteSymbols text).drop offset))

/-- A symbol of code behind an offset, up to which as many brackets of a kind are closed as
opened. -/
structure Balances (d : Dialect) (text : String) (offset : Nat) (opener closer : Char)
    (i : Nat) : Prop where
  lt : offset < i
  code : ∃ c, (i, c) ∈ codeFrom d text offset
  equal : countBefore (codeFrom d text offset) opener (i + 1) =
    countBefore (codeFrom d text offset) closer (i + 1)

section Bracket

variable {text : String} {offset : Nat} (hopen : (byteSymbols text)[offset]? = some opener)
  (hkind : closerOf? opener = some closer)

include hopen hkind

/-- The code behind an opening bracket, and the search in it. -/
theorem exists_pieces_of_opener : ∃ ps,
    codeFrom d text offset = (offset, opener) :: codeOffsets (offset + 1) ps ∧
      closingOffset? d text offset =
        (enclosedIn opener closer 0 ps).map fun inside => offset + 1 + inside.length := by
  have hdrop : (byteSymbols text).drop offset = opener :: (byteSymbols text).drop (offset + 1) := by
    obtain ⟨hlt, hget⟩ := List.getElem?_eq_some_iff.1 hopen
    rw [List.drop_eq_getElem_cons hlt, hget]
  refine ⟨codePieces d ((byteSymbols text).drop (offset + 1)), ?_, ?_⟩
  · rw [codeFrom, hdrop, codePieces_of_none (literal?_of_closerOf? hkind d _), codeOffsets]
  · rw [closingOffset?, hdrop, enclosed?, hkind, Option.bind_some]

/-- Before the closing bracket, or anywhere if there is none, more brackets are opened than
closed. -/
theorem countBefore_of_closingOffset? (hj : offset < j)
    (h : ∀ m, closingOffset? d text offset = some m → j ≤ m) :
    countBefore (codeFrom d text offset) closer j <
      countBefore (codeFrom d text offset) opener j := by
  obtain ⟨ps, hcode, hsearch⟩ := exists_pieces_of_opener (d := d) hopen hkind
  have hne := ne_of_closerOf? hkind
  have hcount := countBefore_of_enclosedIn hne 0 (offset + 1)
    fun v hv => h _ (by rw [hsearch, hv]; rfl)
  rw [hcode, countBefore_cons, countBefore_cons, if_neg (fun hand => hne hand.2),
    if_pos ⟨hj, rfl⟩]
  omega

/-- The bracket that is found balances the one that was opened. -/
theorem balances_of_closingOffset? (h : closingOffset? d text offset = some i) :
    Balances d text offset opener closer i := by
  obtain ⟨ps, hcode, hsearch⟩ := exists_pieces_of_opener (d := d) hopen hkind
  have hne := ne_of_closerOf? hkind
  rw [hsearch] at h
  obtain ⟨v, hv, rfl⟩ := Option.map_eq_some_iff.1 h
  obtain ⟨hmem, hequal⟩ := mem_codeOffsets_of_enclosedIn hne hv (offset + 1)
  refine ⟨by omega, ⟨closer, by rw [hcode]; exact List.mem_cons_of_mem _ hmem⟩, ?_⟩
  rw [hcode, countBefore_cons, countBefore_cons, if_pos ⟨by omega, rfl⟩,
    if_neg (fun hand => hne hand.2)]
  omega

/-- Nothing balances before the closing bracket, nor anywhere if there is none. -/
theorem not_balances (h : ∀ m, closingOffset? d text offset = some m → i < m) :
    ¬ Balances d text offset opener closer i := by
  intro hi
  have hless := countBefore_of_closingOffset? hopen hkind (Nat.lt_succ_of_lt hi.lt) h
  rw [hi.equal] at hless
  exact Nat.lt_irrefl _ hless

omit hopen in
/-- A nested body is closed by the bracket behind it, whatever follows. -/
theorem closingOffset?_of_wellNested {body rest : List Char}
    (htext : (byteSymbols text).drop offset = opener :: (body ++ closer :: rest))
    (hbody : literalsClosed d body) (hnested : wellNested [] (codePieces d body)) :
    closingOffset? d text offset = some (offset + 1 + body.length) := by
  have hcloser : isLabelChar closer = false ∧ closer ≠ '$' ∧
      ∀ s, literal? d (closer :: s) = none := by
    rcases closerOf?_eq_some_iff.1 hkind with ⟨-, rfl⟩ | ⟨-, rfl⟩ | ⟨-, rfl⟩ <;>
      exact ⟨by decide, by decide, fun s => by cases d <;> rfl⟩
  have hpieces := codePieces_append_of_closed hbody hcloser.1 hcloser.2.1 rest
  rw [codePieces_of_none (hcloser.2.2 rest)] at hpieces
  have hend : enclosedIn opener closer 0 (.code closer :: codePieces d rest) = some [] := by
    simp only [enclosedIn, if_neg (ne_of_closerOf? hkind).symm, if_true]
  have hsearch := enclosedIn_balanced (balancedFrom_of_wellNested hkind hnested) 0
    (.code closer :: codePieces d rest)
  rw [List.count_nil, Nat.add_zero, hend, flatMap_text_codePieces, Option.map_some,
    List.append_nil] at hsearch
  rw [closingOffset?, htext, enclosed?, hkind, Option.bind_some, hpieces, hsearch, Option.map_some]

end Bracket

/-- The round, square or curly bracket that closes the one at an offset is at the first offset of code behind it up to
which as many brackets of its kind are closed as opened, and there is none if no offset is such.
Until the search ends, more brackets are opened than closed. A nested body is closed by the bracket
behind it. -/
theorem closingOffset?_matching {d : Dialect} {text : String} {offset : Nat}
    {opener closer : Char} (hopen : (byteSymbols text)[offset]? = some opener)
    (hpair : opener = '(' ∧ closer = ')' ∨ opener = '[' ∧ closer = ']' ∨
      opener = '{' ∧ closer = '}') :
    (∀ i, closingOffset? d text offset = some i ↔
      IsLeast {i | Balances d text offset opener closer i} i) ∧
    (closingOffset? d text offset = none ↔ ∀ i, ¬ Balances d text offset opener closer i) ∧
    (∀ j, offset < j → (∀ i, closingOffset? d text offset = some i → j ≤ i) →
      countBefore (codeFrom d text offset) closer j <
        countBefore (codeFrom d text offset) opener j) ∧
    ∀ body rest, (byteSymbols text).drop offset = opener :: (body ++ closer :: rest) →
      literalsClosed d body → wellNested [] (codePieces d body) →
      closingOffset? d text offset = some (offset + 1 + body.length) := by
  have hkind := closerOf?_eq_some_iff.2 hpair
  have hleast : ∀ i, closingOffset? d text offset = some i →
      IsLeast {i | Balances d text offset opener closer i} i := by
    intro i hi
    refine ⟨balances_of_closingOffset? hopen hkind hi, fun k hk => ?_⟩
    by_contra hlt
    refine not_balances hopen hkind (fun m hm => ?_) hk
    obtain rfl := Option.some.inj (hi.symm.trans hm)
    exact Nat.lt_of_not_le hlt
  have hnone : closingOffset? d text offset = none →
      ∀ i, ¬ Balances d text offset opener closer i := by
    intro hnone i
    exact not_balances hopen hkind (by rw [hnone]; rintro _ ⟨⟩)
  refine ⟨fun i => ⟨hleast i, fun hi => ?_⟩, ⟨hnone, fun h => ?_⟩,
    fun j => countBefore_of_closingOffset? hopen hkind,
    fun body rest => closingOffset?_of_wellNested hkind⟩
  · cases hres : closingOffset? d text offset with
    | none => exact absurd hi.1 (hnone hres i)
    | some m => rw [(hleast m hres).unique hi]
  · cases hres : closingOffset? d text offset with
    | none => rfl
    | some m => exact absurd (hleast m hres).1 (h m)

/-- A bracket behind which others of every kind stand, and one in a literal. -/
def bracketedText : String :=
  "f(a, ['(', é(b)], \x7bc\x7d) )"

/-- The round bracket, the square one inside it and the curly one inside it are closed. -/
theorem closingOffset?_bracketedText :
    (byteSymbols bracketedText)[1]? = some '(' ∧ (byteSymbols bracketedText)[5]? = some '[' ∧
      (byteSymbols bracketedText)[19]? = some '{' ∧
      closingOffset? .sql bracketedText 1 = some 22 ∧
      closingOffset? .sql bracketedText 5 = some 16 ∧
      closingOffset? .sql bracketedText 19 = some 21 ∧
      IsLeast {i | Balances .sql bracketedText 1 '(' ')' i} 22 ∧
      IsLeast {i | Balances .sql bracketedText 5 '[' ']' i} 16 := by
  have hround : (byteSymbols bracketedText)[1]? = some '(' := by decide +kernel
  have hsquare : (byteSymbols bracketedText)[5]? = some '[' := by decide +kernel
  have hcurly : (byteSymbols bracketedText)[19]? = some '{' := by decide +kernel
  have hmatchRound := closingOffset?_matching (d := .sql) hround (.inl ⟨rfl, rfl⟩)
  have hmatchSquare := closingOffset?_matching (d := .sql) hsquare (.inr (.inl ⟨rfl, rfl⟩))
  have hmatchCurly := closingOffset?_matching (d := .sql) hcurly (.inr (.inr ⟨rfl, rfl⟩))
  have hend := hmatchRound.2.2.2 (byteSymbols "a, ['(', é(b)], \x7bc\x7d") [' ', ')']
    (by decide +kernel) (by decide +kernel) (by decide +kernel)
  have hendSquare := hmatchSquare.2.2.2 (byteSymbols "'(', é(b)")
    (byteSymbols ", \x7bc\x7d) )") (by decide +kernel) (by decide +kernel) (by decide +kernel)
  have hendCurly := hmatchCurly.2.2.2 ['c'] (byteSymbols ") )") (by decide +kernel)
    (by decide +kernel) (by decide +kernel)
  exact ⟨hround, hsquare, hcurly, hend, hendSquare, hendCurly, (hmatchRound.1 22).1 hend,
    (hmatchSquare.1 16).1 hendSquare⟩

end SchemaDrift.Scan
