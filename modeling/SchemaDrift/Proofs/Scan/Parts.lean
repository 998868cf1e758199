import SchemaDrift.Proofs.Json.RoundTrip
import SchemaDrift.Proofs.Scan.Closed
import SchemaDrift.Proofs.Scan.Symbols

/-!
# Parts between separators

Splitting a text at a separator and joining parts with it undo each other. The parts of any text,
joined, are the text (`intercalate_splitTopLevel`). Joined parts are found again
(`splitTopLevel_intercalate`) if each of them is a `ClosedPart`: its literals end within it, it
leaves no bracket open, and no separator stands outside its brackets. The separator must neither
begin a literal nor go on the tag of a dollar quote (`isSeparator`). Both hold for the bytes of a
text, and a part is never cut inside a character, since a separator of ASCII is no byte of another
character (`exists_of_intercalate_eq_symbols`).
-/

namespace SchemaDrift.Scan

variable {d : Dialect} {sep : Char} {s part : List Char} {parts : List (List Char)}
  {depth : Nat} {ps : List Piece}

/-! ## Parts of a text -/

/-- The number of brackets that are open behind some pieces; a stray closing bracket leaves it at
zero. -/
def depthFrom : (depth : Nat) → List Piece → Nat
  | depth, [] => depth
  | depth, .code c :: ps => depthFrom (depthAfter depth c) ps
  | depth, _ :: ps => depthFrom depth ps

/-- Whether no separator stands in the code of some pieces outside brackets. -/
def separatorFree (sep : Char) : (depth : Nat) → List Piece → Bool
  | _, [] => true
  | depth, .code c :: ps => !(c == sep && depth == 0) && separatorFree sep (depthAfter depth c) ps
  | depth, _ :: ps => separatorFree sep depth ps

/-- A text that can be told from what a separator parts it from. -/
structure ClosedPart (d : Dialect) (sep : Char) (s : List Char) : Prop where
  literals : literalsClosed d s
  depth : depthFrom 0 (codePieces d s) = 0
  separators : separatorFree sep 0 (codePieces d s)

instance (d : Dialect) (sep : Char) (s : List Char) : Decidable (ClosedPart d sep s) :=
  decidable_of_iff
    (literalsClosed d s ∧ depthFrom 0 (codePieces d s) = 0 ∧ separatorFree sep 0 (codePieces d s))
    ⟨fun h => ⟨h.1, h.2.1, h.2.2⟩, fun h => ⟨h.literals, h.depth, h.separators⟩⟩

/-- Whether a symbol can part texts whatever they are: it is no bracket, no quote, and stands in no
tag of a dollar quote. -/
def isSeparator (c : Char) : Bool :=
  !(isOpener c || isCloser c || c == '\'' || c == '"' || c == '`' || c == '$' || isLabelChar c)

/-- Pieces without a separator belong to the part under way. -/
theorem splitPieces_of_separatorFree (h : separatorFree sep depth ps) (qs : List Piece) :
    splitPieces sep depth (ps ++ qs) =
      (ps.flatMap Piece.text ++ (splitPieces sep (depthFrom depth ps) qs).1,
        (splitPieces sep (depthFrom depth ps) qs).2) := by
  induction ps generalizing depth with
  | nil => rfl
  | cons p ps ih =>
    cases p with
    | code c =>
      rw [separatorFree, Bool.and_eq_true, Bool.not_eq_true'] at h
      have hsep : separates sep depth c = false := by
        rw [separates, Bool.and_assoc, h.1, Bool.and_false]
      simp only [List.cons_append, splitPieces, hsep, Bool.false_eq_true, if_false, ih h.2]
      rfl
    | literal l | comment l =>
      simp only [List.cons_append, splitPieces, ih h, List.flatMap_cons, List.append_assoc]
      rfl

/-! ## Splitting and joining -/

/-- A text in front of joined parts belongs to the first of them. -/
theorem intercalate_append_cons (sep s part : List Char) (parts : List (List Char)) :
    sep.intercalate ((s ++ part) :: parts) = s ++ sep.intercalate (part :: parts) := by
  cases parts with
  | nil => rw [List.intercalate_singleton, List.intercalate_singleton]
  | cons q parts => simp [List.intercalate_cons_cons]

/-- Joined parts: the first one, and each other one behind a separator. -/
theorem intercalate_cons (sep : Char) (part : List Char) (later : List (List Char)) :
    [sep].intercalate (part :: later) = part ++ later.flatMap (sep :: ·) := by
  induction later generalizing part with
  | nil => simp [List.intercalate_singleton]
  | cons q later ih =>
    rw [List.intercalate_cons_cons, ih q]
    simp

/-- Joined parts around one of them: those before with a separator behind each, and those after with
one before each. -/
theorem intercalate_append (sep : Char) (parts : List (List Char)) (part : List Char)
    (later : List (List Char)) : [sep].intercalate (parts ++ part :: later) =
      parts.flatMap (· ++ [sep]) ++ (part ++ later.flatMap (sep :: ·)) := by
  induction parts with
  | nil => exact intercalate_cons sep part later
  | cons q parts ih =>
    rw [List.flatMap_cons, List.append_assoc, ← ih, List.cons_append, intercalate_cons]
    cases parts <;> simp [intercalate_cons]

/-- The parts of a text, joined, are the text. -/
theorem intercalate_splitTopLevel (d : Dialect) (sep : Char) (s : List Char) :
    [sep].intercalate (splitTopLevel d sep s) = s := by
  have hparts : ∀ depth ps, [sep].intercalate
      ((splitPieces sep depth ps).1 :: (splitPieces sep depth ps).2) = ps.flatMap Piece.text := by
    intro depth ps
    induction ps generalizing depth with
    | nil => rfl
    | cons p ps ih =>
      cases p with
      | code c =>
        rw [splitPieces, List.flatMap_cons]
        split
        · next hsep =>
          obtain rfl : c = sep := by
            simp only [separates, Bool.and_eq_true, beq_iff_eq] at hsep
            exact hsep.1.2
          rw [List.intercalate_cons_cons, ih]
          rfl
        · exact (intercalate_append_cons _ [c] _ _).trans (congrArg _ (ih _))
      | literal l | comment l =>
        exact (intercalate_append_cons _ l _ _).trans (congrArg _ (ih _))
  rw [splitTopLevel, hparts, flatMap_text_codePieces]

/-- A separator begins no literal. -/
theorem literal?_of_isSeparator (h : isSeparator sep) (s : List Char) :
    literal? d (sep :: s) = none := by
  simp only [isSeparator, Bool.not_eq_true', Bool.or_eq_false_iff, beq_eq_false_iff_ne] at h
  cases d <;> simp [literal?, h]

/-- A closed part is split off at the separator behind it. -/
theorem splitTopLevel_closedPart (hsep : isSeparator sep) (hpart : ClosedPart d sep part)
    (s : List Char) : splitTopLevel d sep (part ++ sep :: s) = part :: splitTopLevel d sep s := by
  have hcode := codePieces_of_none (literal?_of_isSeparator (d := d) hsep s)
  simp only [isSeparator, Bool.not_eq_true', Bool.or_eq_false_iff, beq_eq_false_iff_ne] at hsep
  obtain ⟨⟨⟨⟨⟨⟨hopen, hclose⟩, -⟩, -⟩, -⟩, hdollar⟩, hlabel⟩ := hsep
  have hcut : separates sep 0 sep := by simp [separates, hopen, hclose]
  have hdepth : depthAfter 0 sep = 0 := by simp [depthAfter, hopen, hclose]
  rw [splitTopLevel, codePieces_append_of_closed hpart.literals hlabel hdollar, hcode,
    splitPieces_of_separatorFree hpart.separators, hpart.depth, flatMap_text_codePieces,
    splitPieces, if_pos hcut, hdepth, List.append_nil]
  rfl

/-- Closed parts, joined, are split into the parts again. -/
theorem splitTopLevel_intercalate (hsep : isSeparator sep) (hne : parts ≠ [])
    (hparts : ∀ part ∈ parts, ClosedPart d sep part) :
    splitTopLevel d sep ([sep].intercalate parts) = parts := by
  induction parts with
  | nil => exact absurd rfl hne
  | cons part parts ih =>
    rw [List.forall_mem_cons] at hparts
    cases parts with
    | nil =>
      have hsplit := splitPieces_of_separatorFree hparts.1.separators []
      rw [List.append_nil, flatMap_text_codePieces] at hsplit
      rw [List.intercalate_singleton, splitTopLevel, hsplit]
      simp [splitPieces]
    | cons q parts =>
      rw [List.intercalate_cons_cons, List.append_assoc, List.singleton_append,
        splitTopLevel_closedPart hsep hparts.1, ih (List.cons_ne_nil _ _) hparts.2]

/-! ## Texts of bytes -/

/-- Parts of the bytes of a text between separators of ASCII are the bytes of parts of the text. -/
theorem exists_of_intercalate_eq_symbols (hsep : isAscii sep) (hne : parts ≠ [])
    (h : [sep].intercalate parts = symbols s) :
    ∃ texts, parts = texts.map symbols ∧ [sep].intercalate texts = s := by
  induction parts generalizing s with
  | nil => exact absurd rfl hne
  | cons part parts ih =>
    cases parts with
    | nil =>
      rw [List.intercalate_singleton] at h
      exact ⟨[s], by rw [h]; rfl, List.intercalate_singleton⟩
    | cons q parts =>
      rw [List.intercalate_cons_cons, List.append_assoc, List.singleton_append] at h
      obtain ⟨u, v, rfl, rfl, hrest⟩ := exists_of_symbols_eq hsep h.symm
      obtain ⟨texts, htexts, rfl⟩ := ih (List.cons_ne_nil _ _) hrest
      obtain ⟨t, texts, rfl⟩ : ∃ t texts', texts = t :: texts' :=
        List.exists_cons_of_ne_nil (by rintro rfl; cases htexts)
      exact ⟨u :: t :: texts, by rw [htexts]; rfl, by simp [List.intercalate_cons_cons]⟩

/-- Some texts with a byte of ASCII between them. -/
def joinAtByte (sep : UInt8) (parts : List String) : String :=
  (String.singleton (Char.ofNat sep.toNat)).intercalate parts

/-- The bytes of joined parts are the joined bytes of the parts. -/
theorem symbols_intercalate (hsep : isAscii sep) (parts : List (List Char)) :
    symbols ([sep].intercalate parts) = [sep].intercalate (parts.map symbols) := by
  induction parts with
  | nil => rfl
  | cons part parts ih =>
    cases parts with
    | nil => simp [List.intercalate_singleton]
    | cons q parts =>
      simp only [List.map_cons, List.intercalate_cons_cons, symbols_append,
        symbols_of_isAscii hsep] at ih ⊢
      rw [ih]

/-- Splitting a text at a separator of ASCII and joining texts with it undo each other: the parts of
every text are texts that make it up, and closed parts are found again where they were joined. -/
theorem splitAtByte?_joinAtByte_inverse (d : Dialect) {sep : UInt8} (hsep : sep < 128) :
    (∀ text, ∃ parts, splitAtByte? d sep text = some parts ∧ joinAtByte sep parts = text) ∧
      (isSeparator (Char.ofNat sep.toNat) → ∀ parts ≠ [],
        (∀ part ∈ parts, ClosedPart d (Char.ofNat sep.toNat) (byteSymbols part)) →
        splitAtByte? d sep (joinAtByte sep parts) = some parts) := by
  have hascii : isAscii (Char.ofNat sep.toNat) := by
    rw [isAscii, toNat_ofNat_toNat]
    exact decide_eq_true hsep
  have hread : ∀ part : String, ofByteSymbols? (byteSymbols part) = some part := fun part => by
    rw [byteSymbols_eq, ofByteSymbols?_symbols, String.ofList_toList]
  constructor
  · intro text
    obtain ⟨texts, htexts, htext⟩ := exists_of_intercalate_eq_symbols hascii (List.cons_ne_nil _ _)
      (intercalate_splitTopLevel d (Char.ofNat sep.toNat) (byteSymbols text))
    have hparts : splitTopLevel d (Char.ofNat sep.toNat) (byteSymbols text) =
        (texts.map String.ofList).map byteSymbols := by
      rw [List.map_map]
      refine htexts.trans (List.map_congr_left fun t _ => ?_)
      rw [Function.comp_apply, byteSymbols_eq, String.toList_ofList]
    refine ⟨texts.map String.ofList, ?_, ?_⟩
    · rw [splitAtByte?, hparts, Json.mapM_map_of_inverse hread]
    · rw [← String.toList_inj, joinAtByte, String.toList_intercalate, List.map_map, ← htext]
      simp [Function.comp_def]
  · intro hplain parts hne hparts
    have hjoin : byteSymbols (joinAtByte sep parts) =
        [Char.ofNat sep.toNat].intercalate (parts.map byteSymbols) := by
      rw [byteSymbols_eq, joinAtByte, String.toList_intercalate, String.toList_singleton,
        symbols_intercalate hascii, List.map_map]
      rfl
    rw [splitAtByte?, hjoin, splitTopLevel_intercalate hplain (by simpa using hne) (by simpa),
      Json.mapM_map_of_inverse hread]

/-- Parts with separators in brackets, in a quote and in a dollar quote. -/
def columnParts : List String :=
  ["f(a, b)", "it's, or'", "$q$,$$é$q$", ""]

/-- Commas in parentheses, in a literal and in a dollar quote do not split, and an empty part at the
end is kept. -/
theorem splitAtByte?_columnParts :
    (44 : UInt8) < 128 ∧ isSeparator (Char.ofNat (44 : UInt8).toNat) ∧ columnParts ≠ [] ∧
      (∀ part ∈ columnParts, ClosedPart .sql (Char.ofNat (44 : UInt8).toNat) (byteSymbols part)) ∧
      splitAtByte? .sql 44 "f(a, b),it's, or',$q$,$$é$q$," = some columnParts := by
  have hsep : (44 : UInt8) < 128 := by decide
  have hplain : isSeparator (Char.ofNat (44 : UInt8).toNat) := by decide
  have hne : columnParts ≠ [] := by decide
  have hparts : ∀ part ∈ columnParts,
      ClosedPart .sql (Char.ofNat (44 : UInt8).toNat) (byteSymbols part) := by decide +kernel
  have hjoin : joinAtByte 44 columnParts = "f(a, b),it's, or',$q$,$$é$q$," := by decide +kernel
  have hsplit := (splitAtByte?_joinAtByte_inverse .sql hsep).2 hplain columnParts hne hparts
  rw [hjoin] at hsplit
  exact ⟨hsep, hplain, hne, hparts, hsplit⟩

end SchemaDrift.Scan
