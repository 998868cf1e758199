import SchemaDrift.Proofs.Scan.Layout
import SchemaDrift.Proofs.Scan.Matching
import SchemaDrift.Proofs.Scan.Offsets
import SchemaDrift.Proofs.Scan.Settled

/-!
# Checked steps

An extractor that reads a text by offsets of bytes takes differences of unsigned numbers and slices.
The steps here are such steps with nothing taken for granted: a difference below zero, an offset
past the end and one inside a character make a step fail. The search for a closing bracket that
counts brackets with checked differences always has an answer, which is that of the search by
offsets (`findClosing?_eq`), and the slice between a bracket and the one that closes it is always
there: it is what the bracket encloses (`bodyBehind?_eq`). The slice up to the end of a statement is
the statement (`statementAt?_eq`), and a text splits at the byte of a comma as it does at commas
(`commaParts?_eq`).
-/

namespace SchemaDrift.Scan

open SchemaDrift.Text

/-! ## Differences and lists -/

/-- The difference of two unsigned numbers, if it is one. -/
def minus? (a b : Nat) : Option Nat :=
  if b ≤ a then some (a - b) else none

/-- One less than a successor is its predecessor. -/
theorem minus?_succ (n : Nat) : minus? (n + 1) 1 = some n := by
  simp [minus?]

/-- What a step gives for all elements of a list, unless it fails for one. -/
def gather? {α β : Type} (f : α → Option (List β)) (l : List α) : Option (List β) :=
  (l.mapM f).map List.flatten

/-- Steps that succeed on every element of a list succeed on the list. -/
theorem mapM_eq_some {α β : Type} {f : α → Option β} {g : α → β} {l : List α}
    (h : ∀ a ∈ l, f a = some (g a)) : l.mapM f = some (l.map g) := by
  induction l with
  | nil => rfl
  | cons a l ih =>
    rw [List.forall_mem_cons] at h
    rw [List.mapM_cons, h.1, ih h.2]
    rfl

/-- What steps gather that succeed on every element is what the elements give. -/
theorem gather?_eq_some {α β : Type} {f : α → Option (List β)} {g : α → List β} {l : List α}
    (h : ∀ a ∈ l, f a = some (g a)) : gather? f l = some (l.flatMap g) := by
  rw [gather?, mapM_eq_some h, Option.map_some, List.flatMap_def]

/-- To gather from a mapped list is to map first. -/
theorem gather?_map {α β γ : Type} (f : β → Option (List γ)) (g : α → β) (l : List α) :
    gather? f (l.map g) = gather? (fun a => f (g a)) l := by
  rw [gather?, gather?, List.mapM_map]
  rfl

/-! ## Closing brackets -/

/-- The search for the symbol that brings the number of open brackets of a kind back to zero. It
fails if that number falls below zero. -/
def closingFrom? (opener closer : Char) :
    (depth offset : Nat) → List Piece → Option (Option Nat)
  | _, _, [] => some none
  | depth, offset, .code c :: ps =>
    if c = opener then closingFrom? opener closer (depth + 1) (offset + 1) ps
    else if c = closer then
      (minus? depth 1).bind fun less =>
        if less = 0 then some (some offset) else closingFrom? opener closer less (offset + 1) ps
    else closingFrom? opener closer depth (offset + 1) ps
  | depth, offset, p :: ps => closingFrom? opener closer depth (offset + p.text.length) ps

/-- The offset of the bracket that closes the one at an offset, searched for from that one on with
no bracket open. -/
def findClosing? (d : Dialect) (text : String) (offset : Nat) : Option (Option Nat) :=
  match (byteSymbols text).drop offset with
  | [] => some none
  | c :: s =>
    match closerOf? c with
    | none => some none
    | some closer => closingFrom? c closer 0 offset (codePieces d (c :: s))

/-- The search for a closing bracket never falls below zero, and finds the end of what is
enclosed. -/
theorem closingFrom?_eq (opener closer : Char) (depth offset : Nat) (ps : List Piece) :
    closingFrom? opener closer (depth + 1) offset ps =
      some ((enclosedIn opener closer depth ps).map fun inside => offset + inside.length) := by
  induction ps generalizing depth offset with
  | nil => rfl
  | cons p ps ih =>
    cases p with
    | code c =>
      have hlength : ∀ n, ((enclosedIn opener closer n ps).map fun inside =>
            offset + 1 + inside.length) =
          ((enclosedIn opener closer n ps).map (c :: ·)).map fun inside =>
            offset + inside.length := by
        intro n
        rw [Option.map_map]
        refine congrArg (Option.map · _) (funext fun inside => ?_)
        rw [Function.comp_apply, List.length_cons]
        omega
      by_cases hopen : c = opener
      · simp only [closingFrom?, enclosedIn, if_pos hopen, ih, hlength]
      by_cases hclose : c = closer
      · simp only [closingFrom?, enclosedIn, if_neg hopen, if_pos hclose, minus?_succ,
          Option.bind_some]
        cases depth with
        | zero => rfl
        | succ n => rw [if_neg (Nat.succ_ne_zero n), ih, hlength]
      · simp only [closingFrom?, enclosedIn, if_neg hopen, if_neg hclose, ih, hlength]
    | literal l | comment l =>
      show closingFrom? opener closer (depth + 1) (offset + l.length) ps =
        some (((enclosedIn opener closer depth ps).map (l ++ ·)).map fun inside =>
          offset + inside.length)
      rw [ih, Option.map_map]
      refine congrArg (fun f => some (Option.map f _)) (funext fun inside => ?_)
      rw [Function.comp_apply, List.length_append]
      omega

/-- No closing bracket brings the number of open ones below zero, and the search has the answer of
the search by offsets. -/
theorem findClosing?_eq (d : Dialect) (text : String) (offset : Nat) :
    findClosing? d text offset = some (closingOffset? d text offset) := by
  rw [findClosing?, closingOffset?]
  cases (byteSymbols text).drop offset with
  | nil => rfl
  | cons c s =>
    dsimp only
    rw [enclosed?]
    cases hcloser : closerOf? c with
    | none => rfl
    | some closer =>
      rw [codePieces_of_none (literal?_of_closerOf? hcloser d s)]
      simp only [closingFrom?, if_true, closingFrom?_eq, Option.bind_some]

/-- What stands inside the bracket that ends at an offset, if that bracket is closed. -/
def bodyBehind? (d : Dialect) (s : List Char) (stop : Nat) : Option (Option (List Char)) :=
  (minus? stop 1).bind fun opening =>
    (findClosing? d (String.ofList s) opening).bind fun closing? =>
      match closing? with
      | none => some none
      | some closing => (slice? s (opening + 1) closing).map some

/-- An ASCII character has one byte. -/
theorem byteSize_of_isAscii {c : Char} (h : isAscii c) : byteSize [c] = 1 := by
  rw [← length_symbols_eq, symbols_of_isAscii h]
  rfl

/-- The slice behind a bracket up to the one that closes it is what the bracket encloses. -/
theorem bodyBehind?_eq {c closer : Char} (hc : closerOf? c = some closer) (d : Dialect)
    (x rest : List Char) :
    bodyBehind? d (x ++ c :: rest) (byteSize x + 1) = some (enclosed? d (c :: rest)) := by
  rw [bodyBehind?, minus?_succ, Option.bind_some, findClosing?_eq, Option.bind_some,
    closingOffset?_append]
  cases hbody : enclosed? d (c :: rest) with
  | none => rfl
  | some body =>
    obtain ⟨tail, htail⟩ : body <+: rest := by
      rw [enclosed?, hc, Option.bind_some] at hbody
      have hprefix := prefix_of_enclosedIn hbody
      rwa [flatMap_text_codePieces] at hprefix
    have hslice : slice? (x ++ c :: rest) (byteSize x + 1) (byteSize x + 1 + byteSize body) =
        some body := by
      refine slice?_eq_some_iff.2 ⟨x ++ [c], tail, by simp [← htail], ?_, ?_⟩
      · rw [byteSize_append, byteSize_of_isAscii (isAscii_of_closerOf? hc).1]
      · rw [byteSize_append, byteSize_append, byteSize_of_isAscii (isAscii_of_closerOf? hc).1]
    rw [Option.map_some]
    dsimp only
    rw [hslice]
    rfl

/-- The same for a bracket that is known by where it stands among the characters of a text. -/
theorem bodyBehind?_take {c closer : Char} {text x rest : List Char} {stop : Nat}
    (hc : closerOf? c = some closer) (htext : text = x ++ c :: rest) (hstop : stop = x.length + 1)
    (d : Dialect) :
    bodyBehind? d text (byteSize (text.take stop)) = some (enclosed? d (c :: rest)) := by
  have hhead : text.take stop = x ++ [c] := by
    rw [htext, hstop, List.append_cons]
    exact List.take_left' (by simp)
  rw [hhead, byteSize_append, byteSize_of_isAscii (isAscii_of_closerOf? hc).1, htext]
  exact bodyBehind?_eq hc d x rest

/-! ## Statements and lists of parts -/

/-- What stands at an offset up to the end of the statement there. -/
def statementAt? (d : Dialect) (s : List Char) (start : Nat) : Option (List Char) :=
  slice? s start (statementEnd d (String.ofList s) start)

/-- The slice up to the end of a statement is the statement. -/
theorem statementAt?_eq (d : Dialect) (x rest : List Char) :
    statementAt? d (x ++ rest) (byteSize x) = some (statement d rest) := by
  obtain ⟨tail, htail⟩ : statement d rest <+: rest := by
    have hprefix := prefix_of_statementIn 0 (codePieces d rest)
    rwa [flatMap_text_codePieces] at hprefix
  rw [statementAt?, statementEnd_append_eq]
  refine slice?_eq_some_iff.2 ⟨x, tail, ?_, rfl, (byteSize_append x _).symm⟩
  rw [List.append_assoc, htail]

/-- The parts of a text between the bytes of commas outside literals and brackets. -/
def commaParts? (d : Dialect) (s : List Char) : Option (List (List Char)) :=
  (splitAtByte? d 44 (String.ofList s)).map fun parts => parts.map String.toList

/-- No step of the split at commas fails, and its parts are those of the split by characters. -/
theorem commaParts?_eq (d : Dialect) (s : List Char) :
    commaParts? d s = some (splitTopLevel d ',' s) := by
  have hcomma : Char.ofNat (44 : UInt8).toNat = ',' := by decide
  rw [commaParts?, splitAtByte?_of_isAscii (by decide), hcomma, String.toList_ofList,
    Option.map_some, List.map_map]
  refine congrArg some ((List.map_congr_left fun part _ => ?_).trans (List.map_id _))
  exact String.toList_ofList

end SchemaDrift.Scan
