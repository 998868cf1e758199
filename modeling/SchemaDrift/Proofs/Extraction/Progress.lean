import SchemaDrift.Proofs.RowType.Slices
import SchemaDrift.Proofs.Scan.Loops

/-!
# Loops that come to an end

The scan for members is a loop over the offsets of a body too (`RowType.memberRound`): it jumps to
the ends of literals and of words, and gives the names of the members (`RowType.members_end`). With
it, every loop of the scanners ends on every text: a literal ends behind its beginning, at the first
place that closes it or at the end of the text, so no round of a loop stands still.
-/

namespace SchemaDrift.RowType

open Scan

variable {c : Char} {s : List Char} {i : Nat}

/-- The state of a scan for members: the number of open brackets, whether a member may begin, and
the names before. -/
structure MemberState where
  depth : Nat
  fresh : Bool
  names : List (List Char)

/-- What a scan for members does at an offset. It goes on where the literal ends that begins there,
or behind the word or the symbol there. -/
def memberBody (s : List Char) (i : Nat) (c : Char) (a : MemberState) :
    Turn (Nat × MemberState) (List (List Char)) :=
  let step := memberStep a.depth a.fresh c (s.drop (i + 1))
  let names := a.names ++ (step.slice.bind (NameSlice.name? (s.drop i))).toList
  .next ((literalEnd? .typeScript s i).getD (i + step.size), ⟨step.depth, step.fresh, names⟩)

/-- The loop that scans a body for members. -/
def memberRound (s : List Char) :
    Nat × MemberState → Turn (Nat × MemberState) (List (List Char)) :=
  whileInside s (memberBody s) fun _ a => a.names

/-- A step at the beginning of a literal goes to the end of the literal. -/
theorem getD_literalEnd? (hc : s[i]? = some c) (depth : Nat) (fresh : Bool) :
    (literalEnd? .typeScript s i).getD (i + (memberStep depth fresh c (s.drop (i + 1))).size) =
      i + (memberStep depth fresh c (s.drop (i + 1))).size := by
  rw [literalEnd?, memberStep, drop_eq_cons hc]
  cases literal? .typeScript (c :: s.drop (i + 1)) with
  | none => rfl
  | some l => rfl

/-- The search for members ends: each round goes on behind what it has read. -/
theorem endsWithin_memberRound (s : List Char) (i : Nat) (a : MemberState) :
    EndsWithin (memberRound s) (s.length - i) (i, a)
      (a.names ++ memberNamesFrom 0 a.depth a.fresh (s.drop i)) := by
  refine endsWithin_whileInside (fun _ _ => True) (fun i (a : MemberState) =>
    a.names ++ memberNamesFrom 0 a.depth a.fresh (s.drop i)) ?_ ?_ trivial
  · intro i c a _ hc
    have hpos := (memberStep_size a.depth a.fresh c (s.drop (i + 1))).1
    have hstep := memberNamesFrom_step a.depth a.fresh c (s.drop (i + 1))
    rw [← drop_eq_cons hc, List.drop_drop] at hstep
    rw [memberBody, getD_literalEnd? hc]
    refine .next (Nat.lt_add_of_pos_right hpos) trivial ?_
    rw [hstep, List.append_assoc]
  · intro i a _ hle
    rw [List.drop_eq_nil_of_le hle]
    exact (List.append_nil a.names).symm

/-- The scan of a body for members comes to an end. -/
theorem members_end (s : List Char) :
    EndsWithin (memberRound s) s.length (0, ⟨0, true, []⟩) (memberNames s) :=
  endsWithin_memberRound s 0 ⟨0, true, []⟩

end SchemaDrift.RowType

namespace SchemaDrift

open Scan

/-- The literal that begins at an offset of any text of symbols, characters or bytes, ends behind
that offset and inside the text, at the first place that closes it or, if there is none, at the end
of the text; where no delimiter stands no literal begins. So the loops that search for a closing
bracket, split a text, search for the end of a statement, blank comments and scan for members, and
the loops over runs of symbols inside them, end within as many rounds as there are symbols left,
with the answers of the scanner. -/
theorem literals_end_and_loops_stop (d : Dialect) (s : List Char) (start : Nat) (sep : UInt8)
    (text : String) :
    (∀ stop, literalEnd? d s start = some stop → start < stop ∧ stop ≤ s.length ∧
        ∃ delim, Delimits d delim ∧ delim <+: s.drop start ∧
          EndsProperly d delim s start stop) ∧
      (literalEnd? d s start = none ↔ ∀ delim, Delimits d delim → ¬ delim <+: s.drop start) ∧
      (∀ opener closer, (byteSymbols text)[start]? = some opener → closerOf? opener = some closer →
        EndsWithin (closingRound d (byteSymbols text) opener closer)
          ((byteSymbols text).length - start) (start, 0) (some (closingOffset? d text start))) ∧
      EndsWithin (splitRound d (Char.ofNat sep.toNat) (byteSymbols text))
        (byteSymbols text).length (0, ⟨0, 0, []⟩)
        (splitTopLevel d (Char.ofNat sep.toNat) (byteSymbols text)) ∧
      EndsWithin (statementRound d (byteSymbols text)) ((byteSymbols text).length - start)
        (start, 0) (statementEnd d text start) ∧
      EndsWithin (blankingRound d (byteSymbols text)) (byteSymbols text).length (0, [])
        (blankedBytes d text) ∧
      EndsWithin (RowType.memberRound (byteSymbols text)) (byteSymbols text).length
        (0, ⟨0, true, []⟩) (RowType.memberNames (byteSymbols text)) ∧
      ∀ ok, EndsWithin (runRound ok (byteSymbols text)) ((byteSymbols text).length - start)
        (start, ()) (start + (((byteSymbols text).drop start).takeWhile ok).length) := by
  refine ⟨?_, literalEnd?_eq_none_iff, ?_, split_ends d _ _, statement_ends d text start,
    blanking_ends d _, RowType.members_end _, fun ok => endsWithin_runRound ok _ start⟩
  · intro stop hstop
    obtain ⟨hlt, hle⟩ := literalEnd?_advances hstop
    exact ⟨hlt, hle, literalEnd?_proper hstop⟩
  · intro opener closer hopener hcloser
    exact closing_ends d hopener hcloser

/-- An escaped quote does not close a literal, a quote behind an escaped backslash does, and a
bracket in a literal closes nothing. -/
theorem literals_end_and_loops_stop_escapes :
    literalEnd? .typeScript "x'a\\'b\\\\' y".toList 1 = some 9 ∧
      (∃ delim, Delimits .typeScript delim ∧ delim <+: "'a\\'b\\\\' y".toList ∧
        EndsProperly .typeScript delim "x'a\\'b\\\\' y".toList 1 9) ∧
      EndsWithin (closingRound .typeScript (byteSymbols "x('a\\')')") '(' ')') 8 (1, 0)
        (some (some 8)) := by
  have hends : literalEnd? .typeScript "x'a\\'b\\\\' y".toList 1 = some 9 := by decide +kernel
  have hopener : (byteSymbols "x('a\\')')")[1]? = some '(' := by decide +kernel
  have hclosing : closingOffset? .typeScript "x('a\\')')" 1 = some 8 := by decide +kernel
  have hlength : (byteSymbols "x('a\\')')").length - 1 = 8 := by decide +kernel
  have hstop := literals_end_and_loops_stop .typeScript "x'a\\'b\\\\' y".toList 1 44 "x('a\\')')"
  have hbracket := hstop.2.2.1 '(' ')' hopener rfl
  rw [hclosing, hlength] at hbracket
  exact ⟨hends, (hstop.1 9 hends).2.2, hbracket⟩

end SchemaDrift
