import SchemaDrift.Proofs.Scan.Checked
import SchemaDrift.Proofs.Scan.LiteralEnds

/-!
# Loops over the offsets of a text

A loop does one round after the other until a round is over with a result (`Ends`). A loop over the
offsets of a text (`whileInside`) ends within as many rounds as symbols are left if every round
moves its offset on, and what all rounds keep is its result (`endsWithin_whileInside`). The scanner
has such loops: they jump to the end of a literal, which is behind its beginning, and act on the
symbols of code between literals (`pastLiterals`). The loops that search for a closing bracket and
for the end of a statement, that split a text, and that blank comments give what the scanner gives.
-/

namespace SchemaDrift.Scan

variable {d : Dialect} {c opener closer sep : Char} {s : List Char} {i : Nat} {σ ρ : Type}

/-! ## Loops -/

/-- What a round of a loop leads to: a state from which the loop goes on, or its result. -/
inductive Turn (σ ρ : Type)
  | next (state : σ)
  | done (result : ρ)

/-- What is made of the state or of the result that a round leads to. -/
def Turn.elim {τ : Type} (next : σ → τ) (done : ρ → τ) : Turn σ ρ → τ
  | .next a => next a
  | .done r => done r

/-- A loop comes to an end from a state: it has a result after a number of rounds that lead on. -/
inductive Ends (round : σ → Turn σ ρ) : Nat → σ → ρ → Prop
  | done {a : σ} {r : ρ} (h : round a = .done r) : Ends round 0 a r
  | next {n : Nat} {a a' : σ} {r : ρ} (h : round a = .next a') (hends : Ends round n a' r) :
      Ends round (n + 1) a r

/-- A loop comes to an end after no more than some rounds that lead on. -/
def EndsWithin (round : σ → Turn σ ρ) (bound : Nat) (a : σ) (r : ρ) : Prop :=
  ∃ n ≤ bound, Ends round n a r

/-- The rounds of a loop that goes on as long as its offset lies inside a text. -/
def whileInside (s : List Char) (body : Nat → Char → σ → Turn (Nat × σ) ρ) (finish : Nat → σ → ρ)
    (state : Nat × σ) : Turn (Nat × σ) ρ :=
  match s[state.1]? with
  | none => .done (finish state.1 state.2)
  | some c => body state.1 c state.2

/-- A round moves the offset on and keeps an invariant and a value, or gives that value. -/
inductive Advances (Inv : Nat → σ → Prop) (value : Nat → σ → ρ) (i : Nat) (a : σ) :
    Turn (Nat × σ) ρ → Prop
  | next {i' : Nat} {a' : σ} (hlt : i < i') (hinv : Inv i' a') (hvalue : value i' a' = value i a) :
      Advances Inv value i a (.next (i', a'))
  | done {r : ρ} (hvalue : r = value i a) : Advances Inv value i a (.done r)

/-- A loop whose rounds move its offset on comes to an end within as many rounds as symbols are
left, with the value that its rounds keep. -/
theorem endsWithin_whileInside {body : Nat → Char → σ → Turn (Nat × σ) ρ} {finish : Nat → σ → ρ}
    (Inv : Nat → σ → Prop) (value : Nat → σ → ρ)
    (hbody : ∀ i c a, Inv i a → s[i]? = some c → Advances Inv value i a (body i c a))
    (hfinish : ∀ i a, Inv i a → s.length ≤ i → finish i a = value i a) {i : Nat} {a : σ}
    (hinv : Inv i a) :
    EndsWithin (whileInside s body finish) (s.length - i) (i, a) (value i a) := by
  induction hn : s.length - i using Nat.strong_induction_on generalizing i a with
  | _ n ih =>
    cases hc : s[i]? with
    | none =>
      have hround : whileInside s body finish (i, a) = .done (finish i a) := by
        simp only [whileInside, hc]
      rw [hfinish i a hinv (List.getElem?_eq_none_iff.1 hc)] at hround
      exact ⟨0, Nat.zero_le n, .done hround⟩
    | some c =>
      have hlt : i < s.length := (List.getElem?_eq_some_iff.1 hc).1
      have hround : whileInside s body finish (i, a) = body i c a := by
        simp only [whileInside, hc]
      have hstep := hbody i c a hinv hc
      rw [← hround] at hstep
      generalize hturn : whileInside s body finish (i, a) = turn at hstep
      cases hstep with
      | done hvalue =>
        subst hvalue
        exact ⟨0, Nat.zero_le n, .done hturn⟩
      | @next i' a' hnext hinv' hvalue =>
        obtain ⟨m, hm, hends⟩ := ih (s.length - i') (by omega) hinv' rfl
        rw [hvalue] at hends
        exact ⟨m + 1, by omega, .next hturn hends⟩

/-- The loop over a run of symbols of a class ends behind the run. -/
def runRound (ok : Char → Bool) (s : List Char) : Nat × Unit → Turn (Nat × Unit) Nat :=
  whileInside s (fun i c a => if ok c then .next (i + 1, a) else .done i) fun i _ => i

/-- A text from the place of one of its symbols on begins with that symbol. -/
theorem drop_eq_cons (hc : s[i]? = some c) : s.drop i = c :: s.drop (i + 1) := by
  obtain ⟨hlt, rfl⟩ := List.getElem?_eq_some_iff.1 hc
  exact List.drop_eq_getElem_cons hlt

/-- A text from a place on that begins with another one goes on behind it. -/
theorem drop_eq_append {x : List Char} (h : x <+: s.drop i) :
    s.drop i = x ++ s.drop (i + x.length) := by
  obtain ⟨t, ht⟩ := h
  rw [← List.drop_drop, ← ht, List.drop_left]

/-- The loop over a run of characters ends behind the run. -/
theorem endsWithin_runRound (ok : Char → Bool) (s : List Char) (i : Nat) :
    EndsWithin (runRound ok s) (s.length - i) (i, ())
      (i + ((s.drop i).takeWhile ok).length) := by
  refine endsWithin_whileInside (fun _ _ => True)
    (fun i _ => i + ((s.drop i).takeWhile ok).length) ?_ ?_ trivial
  · intro i c a _ hc
    have hrun : i + ((s.drop i).takeWhile ok).length =
        if ok c then i + 1 + ((s.drop (i + 1)).takeWhile ok).length else i := by
      rw [drop_eq_cons hc, List.takeWhile_cons]
      split
      · rw [List.length_cons]
        omega
      · rfl
    split
    · next hok => exact .next (Nat.lt_succ_self i) trivial (by rw [hrun, if_pos hok])
    · next hok => exact .done (by rw [hrun, if_neg hok])
  · intro i a _ hle
    rw [List.drop_eq_nil_of_le hle]
    rfl

/-! ## Loops that jump over literals -/

/-- A round that jumps over a literal and acts on a symbol of code. -/
def pastLiterals (d : Dialect) (s : List Char) (act : Nat → Char → σ → Turn σ ρ) (i : Nat)
    (c : Char) (a : σ) : Turn (Nat × σ) ρ :=
  match literalEnd? d s i with
  | some stop => .next (stop, a)
  | none =>
    (act i c a).elim (fun a' => .next (i + 1, a')) .done

/-- The piece at an offset where a literal begins is the literal. -/
theorem exists_of_literalEnd? {stop : Nat} (h : literalEnd? d s i = some stop) :
    ∃ l, literal? d (s.drop i) = some l ∧ s.drop i = l ++ s.drop stop ∧ stop = i + l.length := by
  obtain ⟨l, hl, rfl⟩ := Option.map_eq_some_iff.1 h
  exact ⟨l, hl, drop_eq_append (literal?_spec hl).2, rfl⟩

/-- A round that jumps over literals advances if a literal changes nothing and what is done at a
symbol of code keeps the value. -/
theorem Advances.pastLiterals {act : Nat → Char → σ → Turn σ ρ} {Inv : Nat → σ → Prop}
    {value : Nat → σ → ρ} {a : σ} (hc : s[i]? = some c)
    (hliteral : ∀ l, s.drop i = l ++ s.drop (i + l.length) →
      codePieces d (s.drop i) = .literal l :: codePieces d (s.drop (i + l.length)) →
      Inv (i + l.length) a ∧ value (i + l.length) a = value i a)
    (hcode : codePieces d (s.drop i) = .code c :: codePieces d (s.drop (i + 1)) →
      value i a = (act i c a).elim (value (i + 1)) id)
    (hinv : ∀ a', act i c a = .next a' → Inv (i + 1) a') :
    Advances Inv value i a (pastLiterals d s act i c a) := by
  rw [Scan.pastLiterals]
  cases hstop : literalEnd? d s i with
  | some stop =>
    obtain ⟨l, hl, hs, rfl⟩ := exists_of_literalEnd? hstop
    have hpieces : codePieces d (s.drop i) =
        .literal l :: codePieces d (s.drop (i + l.length)) := by
      rw [hs] at hl ⊢
      exact codePieces_of_literal hl
    obtain ⟨hkeeps, hvalue⟩ := hliteral l hs hpieces
    exact .next (literalEnd?_advances hstop).1 hkeeps hvalue
  | none =>
    have hpieces : codePieces d (s.drop i) = .code c :: codePieces d (s.drop (i + 1)) := by
      have hnone := Option.map_eq_none_iff.1 hstop
      rw [drop_eq_cons hc] at hnone ⊢
      exact codePieces_of_none hnone
    have hvalue := hcode hpieces
    dsimp only
    cases hact : act i c a with
    | next a' =>
      rw [hact] at hvalue
      exact .next (Nat.lt_succ_self i) (hinv a' hact) hvalue.symm
    | done r =>
      rw [hact] at hvalue
      exact .done hvalue.symm

/-! ## Closing brackets -/

/-- What the search for a closing bracket does at a symbol of code. It fails if the number of open
brackets falls below zero. -/
def closingAct (opener closer : Char) (i : Nat) (c : Char) (depth : Nat) :
    Turn Nat (Option (Option Nat)) :=
  if c = opener then .next (depth + 1)
  else if c = closer then
    match minus? depth 1 with
    | none => .done none
    | some less => if less = 0 then .done (some (some i)) else .next less
  else .next depth

/-- The loop that searches for a closing bracket, with the number of open ones as its state. -/
def closingRound (d : Dialect) (s : List Char) (opener closer : Char) :
    Nat × Nat → Turn (Nat × Nat) (Option (Option Nat)) :=
  whileInside s (pastLiterals d s (closingAct opener closer)) fun _ _ => some none

/-- A symbol of code acts on the search for a closing bracket once. -/
theorem closingFrom?_code (opener closer c : Char) (depth i : Nat) (ps : List Piece) :
    closingFrom? opener closer depth i (.code c :: ps) =
      (closingAct opener closer i c depth).elim
        (fun depth' => closingFrom? opener closer depth' (i + 1) ps) id := by
  rw [closingFrom?, closingAct]
  split
  · rfl
  split
  · cases minus? depth 1 with
    | none => rfl
    | some less =>
      rw [Option.bind_some]
      dsimp only
      split <;> rfl
  · rfl

/-- The loop that looks for a closing bracket ends with the answer of the search over pieces. -/
theorem endsWithin_closingRound (d : Dialect) (s : List Char) (opener closer : Char)
    (i depth : Nat) : EndsWithin (closingRound d s opener closer) (s.length - i) (i, depth)
      (closingFrom? opener closer depth i (codePieces d (s.drop i))) := by
  refine endsWithin_whileInside (fun _ _ => True)
    (fun i depth => closingFrom? opener closer depth i (codePieces d (s.drop i))) ?_ ?_ trivial
  · intro i c depth _ hc
    refine .pastLiterals hc ?_ ?_ fun _ _ => trivial
    · intro l _ hpieces
      rw [hpieces]
      exact ⟨trivial, rfl⟩
    · intro hpieces
      rw [hpieces]
      exact closingFrom?_code opener closer c depth i _
  · intro i depth _ hle
    rw [List.drop_eq_nil_of_le hle]
    rfl

/-- The search for the bracket that closes the one at an offset comes to an end, and the number of
open brackets never falls below zero. -/
theorem closing_ends {text : String} (d : Dialect) {offset : Nat}
    (hc : (byteSymbols text)[offset]? = some c) (hcloser : closerOf? c = some closer) :
    EndsWithin (closingRound d (byteSymbols text) c closer)
      ((byteSymbols text).length - offset) (offset, 0) (some (closingOffset? d text offset)) := by
  have hends := endsWithin_closingRound d (byteSymbols text) c closer offset 0
  have hfound := findClosing?_eq d text offset
  rw [findClosing?, drop_eq_cons hc] at hfound
  simp only [hcloser] at hfound
  rwa [drop_eq_cons hc, hfound] at hends

/-! ## Statements -/

/-- What the search for the end of a statement does at a symbol of code. -/
def statementAct (i : Nat) (c : Char) (depth : Nat) : Turn Nat Nat :=
  if c = ';' ∧ depth = 0 then .done i else .next (depthAfter depth c)

/-- The loop that searches for the end of a statement, with the number of open brackets as its
state. -/
def statementRound (d : Dialect) (s : List Char) : Nat × Nat → Turn (Nat × Nat) Nat :=
  whileInside s (pastLiterals d s statementAct) fun _ _ => s.length

/-- The loop that looks for the end of a statement ends behind the statement. -/
theorem endsWithin_statementRound (d : Dialect) (s : List Char) (i depth : Nat) :
    EndsWithin (statementRound d s) (s.length - i) (i, depth)
      ((s.take i).length + (statementIn depth (codePieces d (s.drop i))).length) := by
  refine endsWithin_whileInside (fun _ _ => True) (fun i depth =>
    (s.take i).length + (statementIn depth (codePieces d (s.drop i))).length) ?_ ?_ trivial
  · intro i c depth _ hc
    have hlt := (List.getElem?_eq_some_iff.1 hc).1
    refine .pastLiterals hc ?_ ?_ fun _ _ => trivial
    · intro l hl hpieces
      have hlength := congrArg List.length hl
      rw [hpieces]
      simp only [List.length_drop, List.length_append, List.length_take, statementIn,
        Piece.text] at hlength ⊢
      exact ⟨trivial, by omega⟩
    · intro hpieces
      rw [hpieces, statementIn, statementAct]
      split
      · rw [List.length_take, Nat.min_eq_left (Nat.le_of_lt hlt)]
        rfl
      · rw [Turn.elim, List.length_take, List.length_take, List.length_cons]
        omega
  · intro i depth _ hle
    rw [List.drop_eq_nil_of_le hle, List.take_of_length_le hle]
    rfl

/-- The search for the end of a statement comes to an end. -/
theorem statement_ends (d : Dialect) (text : String) (offset : Nat) :
    EndsWithin (statementRound d (byteSymbols text)) ((byteSymbols text).length - offset)
      (offset, 0) (statementEnd d text offset) := by
  have hends := endsWithin_statementRound d (byteSymbols text) offset 0
  rw [statementEnd]
  split
  · next hle => rwa [List.length_take, Nat.min_eq_left hle] at hends
  · next hgt =>
    have hle := Nat.le_of_not_le hgt
    rwa [List.take_of_length_le hle, List.drop_eq_nil_of_le hle] at hends

/-! ## Parts -/

/-- The state of a split: the offset where the part begins, the number of open brackets, and the
parts before. -/
structure SplitState where
  start : Nat
  depth : Nat
  parts : List (List Char)

/-- What a split does at a symbol of code. -/
def splitAct (sep : Char) (s : List Char) (i : Nat) (c : Char) (a : SplitState) :
    Turn SplitState (List (List Char)) :=
  if separates sep a.depth c then
    .next ⟨i + 1, depthAfter a.depth c, a.parts ++ [(s.take i).drop a.start]⟩
  else .next { a with depth := depthAfter a.depth c }

/-- The loop that splits a text at separators. -/
def splitRound (d : Dialect) (sep : Char) (s : List Char) :
    Nat × SplitState → Turn (Nat × SplitState) (List (List Char)) :=
  whileInside s (pastLiterals d s (splitAct sep s)) fun _ a => a.parts ++ [s.drop a.start]

/-- A part goes on with the symbols at the offset up to which it was read. -/
theorem drop_take_append {x t : List Char} {start : Nat} (hx : s.drop i = x ++ t)
    (hstart : start ≤ i) (hi : i ≤ s.length) :
    (s.take (i + x.length)).drop start = (s.take i).drop start ++ x := by
  have hle : start ≤ (s.take i).length := by
    rw [List.length_take]
    omega
  rw [List.take_add, hx, List.take_left, List.drop_append_of_le_length hle]

/-- What a split that has come to an offset gives: the parts before, the part that was begun with
what is left of it, and the parts behind. -/
def SplitState.allParts (d : Dialect) (sep : Char) (s : List Char) (i : Nat) (a : SplitState) :
    List (List Char) :=
  let behind := splitPieces sep a.depth (codePieces d (s.drop i))
  a.parts ++ ((s.take i).drop a.start ++ behind.1) :: behind.2

/-- The loop that splits a text ends with the parts of the split over pieces. -/
theorem endsWithin_splitRound (d : Dialect) (sep : Char) (s : List Char) {i : Nat} {a : SplitState}
    (hstart : a.start ≤ i) :
    EndsWithin (splitRound d sep s) (s.length - i) (i, a) (a.allParts d sep s i) := by
  refine endsWithin_whileInside (fun i a => a.start ≤ i) (SplitState.allParts d sep s) ?_ ?_ hstart
  · intro i c a hstart hc
    have hle := Nat.le_of_lt (List.getElem?_eq_some_iff.1 hc).1
    refine .pastLiterals hc ?_ ?_ ?_
    · intro l hl hpieces
      refine ⟨Nat.le_trans hstart (Nat.le_add_right i l.length), ?_⟩
      rw [SplitState.allParts, SplitState.allParts, hpieces, drop_take_append hl hstart hle]
      simp only [splitPieces, Piece.text, List.append_assoc]
    · intro hpieces
      have htake : (s.take (i + 1)).drop a.start = (s.take i).drop a.start ++ [c] :=
        drop_take_append (x := [c]) (drop_eq_cons hc) hstart hle
      have hempty : (s.take (i + 1)).drop (i + 1) = [] :=
        List.drop_eq_nil_of_le (List.length_take_le _ _)
      rw [SplitState.allParts, hpieces, splitAct, splitPieces]
      split
      · simp only [Turn.elim, SplitState.allParts, hempty, List.append_nil, List.nil_append,
          List.append_assoc, List.singleton_append]
      · simp only [Turn.elim, SplitState.allParts, htake, List.append_assoc, List.singleton_append]
    · intro a' hact
      rw [splitAct] at hact
      split at hact
      · cases hact
        exact Nat.le_refl (i + 1)
      · cases hact
        exact Nat.le_succ_of_le hstart
  · intro i a _ hle
    rw [SplitState.allParts, List.drop_eq_nil_of_le hle, List.take_of_length_le hle]
    simp [splitPieces, codePieces, pieces]

/-- The split of a text comes to an end. -/
theorem split_ends (d : Dialect) (sep : Char) (s : List Char) :
    EndsWithin (splitRound d sep s) s.length (0, ⟨0, 0, []⟩) (splitTopLevel d sep s) :=
  endsWithin_splitRound (i := 0) (a := ⟨0, 0, []⟩) d sep s (Nat.le_refl 0)

/-! ## Comments -/

/-- What the loop that blanks comments does at an offset, given what it has shown before. -/
def blankingBody (d : Dialect) (s : List Char) (i : Nat) (c : Char) (shown : List Char) :
    Turn (Nat × List Char) (List Char) :=
  match literalEnd? d s i with
  | some stop => .next (stop, shown ++ (s.take stop).drop i)
  | none =>
    match comment? d (s.drop i) with
    | some k => .next (i + k.length, shown ++ (Piece.comment k).blanked fun _ => 1)
    | none => .next (i + 1, shown ++ [c])

/-- The loop that blanks comments. -/
def blankingRound (d : Dialect) (s : List Char) :
    Nat × List Char → Turn (Nat × List Char) (List Char) :=
  whileInside s (blankingBody d s) fun _ shown => shown

/-- The loop that blanks comments ends with every comment blanked. -/
theorem endsWithin_blankingRound (d : Dialect) (s : List Char) (i : Nat) (shown : List Char) :
    EndsWithin (blankingRound d s) (s.length - i) (i, shown)
      (shown ++ (allPieces d (s.drop i)).flatMap (Piece.blanked fun _ => 1)) := by
  refine endsWithin_whileInside (fun _ _ => True) (fun i shown =>
    shown ++ (allPieces d (s.drop i)).flatMap (Piece.blanked fun _ => 1)) ?_ ?_ trivial
  · intro i c shown _ hc
    rw [blankingBody]
    cases hstop : literalEnd? d s i with
    | some stop =>
      obtain ⟨l, hl, hs, rfl⟩ := exists_of_literalEnd? hstop
      refine .next (literalEnd?_advances hstop).1 trivial ?_
      have hlt := (List.getElem?_eq_some_iff.1 hc).1
      have hslice := drop_take_append hs (Nat.le_refl i) (Nat.le_of_lt hlt)
      have hnone : (s.take i).drop i = [] := List.drop_eq_nil_of_le (List.length_take_le _ _)
      rw [hs] at hl
      rw [hslice, hnone, List.nil_append, hs, allPieces_of_literal hl, List.flatMap_cons,
        List.append_assoc]
      rfl
    | none =>
      have hliteral := Option.map_eq_none_iff.1 hstop
      dsimp only
      cases hcomment : comment? d (s.drop i) with
      | some k =>
        obtain ⟨hne, hprefix⟩ := comment?_spec hcomment
        refine .next (Nat.lt_add_of_pos_right (List.length_pos_iff.2 hne)) trivial ?_
        have hs := drop_eq_append hprefix
        rw [hs] at hcomment
        rw [hs, allPieces_of_comment hcomment, List.flatMap_cons, List.append_assoc]
      | none =>
        refine .next (Nat.lt_succ_self i) trivial ?_
        rw [drop_eq_cons hc] at hliteral hcomment
        rw [drop_eq_cons hc, allPieces_of_none hliteral hcomment, List.flatMap_cons,
          List.append_assoc]
        rfl
  · intro i shown _ hle
    rw [List.drop_eq_nil_of_le hle]
    exact (List.append_nil shown).symm

/-- The blanking of comments comes to an end. -/
theorem blanking_ends (d : Dialect) (s : List Char) :
    EndsWithin (blankingRound d s) s.length (0, []) (blankComments (fun _ => 1) d s) :=
  endsWithin_blankingRound d s 0 []

end SchemaDrift.Scan
