import SchemaDrift.Proofs.Scan.Encoded
import SchemaDrift.Proofs.Scan.Parts
import SchemaDrift.Proofs.Text.Slices

/-!
# Scans by bytes and by characters

The bytes of a text are scanned as its characters are: they fall into the bytes of its pieces
(`codePieces_symbols`), so a bracket encloses the bytes of what it encloses in the text, the
statement at its head and its parts are found among its bytes (`enclosed?_symbols`,
`statement_symbols`, `splitTopLevel_symbols`). From an offset between two characters on, the scanner
by offsets therefore stops between two characters again (`closingOffset?_append`,
`statementEnd_append_eq`), and a split at a byte of ASCII gives texts (`splitAtByte?_of_isAscii`).
-/

namespace SchemaDrift.Scan

open SchemaDrift.Text

variable {d : Dialect} {opener closer sep c : Char} {s x y : List Char} {depth : Nat}
  {ps : List Piece}

/-! ## Pieces -/

/-- The bytes of a text fall into the bytes of its literals and of the code between them. -/
theorem codePieces_symbols (d : Dialect) (s : List Char) :
    codePieces d (symbols s) = (codePieces d s).flatMap Piece.inBytes := by
  generalize hps : codePieces d s = ps
  induction ps generalizing s with
  | nil =>
    have hnil := flatMap_text_codePieces (d := d) s
    rw [hps] at hnil
    rw [← hnil]
    rfl
  | cons p ps ih =>
    obtain ⟨t, rfl, ht, hp⟩ := exists_of_pieces_eq_cons literalReader_spec hps
    rw [List.flatMap_cons, ← ih t ht.symm, symbols_append]
    rcases hp with hp | ⟨hp, c, rfl⟩
    · obtain ⟨l, hl, rfl⟩ := Option.map_eq_some_iff.1 hp
      have hbytes : literal? d (symbols l ++ symbols t) = some (symbols l) := by
        rw [← symbols_append, literal?_symbols, ← Option.map_some]
        exact congrArg (Option.map symbols) hl
      exact codePieces_of_literal hbytes
    · rw [Piece.inBytes, Piece.text]
      rcases symbols_cases c with ⟨hc, hsymbol⟩ | ⟨-, b, x, hsymbols, hbx⟩
      · rw [Option.map_eq_none_iff, Piece.text, List.singleton_append] at hp
        rw [hsymbol, List.singleton_append]
        refine codePieces_of_none ?_
        rw [← symbols_cons_of_isAscii hc, literal?_symbols, hp, Option.map_none]
      · rw [hsymbols]
        refine pieces_append _ (fun e he s => ?_) (symbols t)
        rw [literal?_of_not_isAscii (hbx e he)]
        rfl

/-- The bytes of a symbol of code: one of ASCII is its only byte, and no byte of another one is of
ASCII. -/
theorem inBytes_code_cases (c : Char) : (isAscii c ∧ (Piece.code c).inBytes = [.code c]) ∨
    isAscii c = false ∧ (∀ e ∈ symbols [c], isAscii e = false) := by
  rcases symbols_cases c with ⟨hc, hsymbol⟩ | ⟨hc, b, x, hsymbols, hbx⟩
  · exact .inl ⟨hc, by rw [Piece.inBytes, hsymbol]; rfl⟩
  · exact .inr ⟨hc, by rwa [hsymbols]⟩

/-- A bracket is an ASCII character. -/
theorem isBracket_of_not_isAscii (hc : isAscii c = false) :
    isOpener c = false ∧ isCloser c = false := by
  have hne : ∀ e, isAscii e → c ≠ e := fun e => ne_of_isAscii hc
  constructor
  · simp [isOpener, hne '(' (by decide), hne '[' (by decide), hne '{' (by decide)]
  · simp [isCloser, hne ')' (by decide), hne ']' (by decide), hne '}' (by decide)]

/-- A character outside ASCII opens and closes nothing. -/
theorem depthAfter_of_not_isAscii (hc : isAscii c = false) (depth : Nat) :
    depthAfter depth c = depth := by
  simp [depthAfter, isBracket_of_not_isAscii hc]

/-! ## Brackets -/

/-- Symbols that are no brackets of a kind are enclosed as they are. -/
theorem enclosedIn_codes (h : ∀ e ∈ x, e ≠ opener ∧ e ≠ closer) (depth : Nat) (ps : List Piece) :
    enclosedIn opener closer depth (x.map .code ++ ps) =
      (enclosedIn opener closer depth ps).map (x ++ ·) := by
  induction x with
  | nil => simp
  | cons e x ih =>
    rw [List.forall_mem_cons] at h
    simp only [List.map_cons, List.cons_append, enclosedIn, if_neg h.1.1, if_neg h.1.2, ih h.2,
      Option.map_map]
    rfl

/-- What is enclosed in pieces of bytes is the bytes of what is enclosed. -/
theorem enclosedIn_inBytes (ho : isAscii opener) (hc : isAscii closer) (depth : Nat)
    (ps : List Piece) : enclosedIn opener closer depth (ps.flatMap Piece.inBytes) =
      (enclosedIn opener closer depth ps).map symbols := by
  induction ps generalizing depth with
  | nil => rfl
  | cons p ps ih =>
    rw [List.flatMap_cons]
    cases p with
    | code c =>
      rcases inBytes_code_cases c with ⟨hascii, hbytes⟩ | ⟨hno, hbytes⟩
      · have hmap : ∀ n, ((enclosedIn opener closer n ps).map symbols).map (c :: ·) =
            ((enclosedIn opener closer n ps).map (c :: ·)).map symbols := by
          intro n
          rw [Option.map_map, Option.map_map]
          refine congrArg (Option.map · _) (funext fun v => ?_)
          exact (symbols_cons_of_isAscii hascii v).symm
        rw [hbytes, List.singleton_append]
        by_cases hopen : c = opener
        · simp only [enclosedIn, if_pos hopen, ih, hmap]
        by_cases hclose : c = closer
        · cases depth with
          | zero =>
            simp only [enclosedIn, if_neg hopen, if_pos hclose]
            rfl
          | succ n => simp only [enclosedIn, if_neg hopen, if_pos hclose, ih, hmap]
        · simp only [enclosedIn, if_neg hopen, if_neg hclose, ih, hmap]
      · have hne : ∀ e ∈ symbols [c], e ≠ opener ∧ e ≠ closer := fun e he =>
          ⟨ne_of_isAscii (hbytes e he) ho, ne_of_isAscii (hbytes e he) hc⟩
        rw [Piece.inBytes, enclosedIn_codes hne, ih]
        simp only [enclosedIn, if_neg (ne_of_isAscii hno ho), if_neg (ne_of_isAscii hno hc),
          Option.map_map]
        refine congrArg (Option.map · _) (funext fun v => ?_)
        exact (symbols_cons c v).symm
    | literal l | comment l =>
      rw [Piece.inBytes, List.singleton_append]
      show (enclosedIn opener closer depth (ps.flatMap Piece.inBytes)).map (symbols l ++ ·) =
        ((enclosedIn opener closer depth ps).map (l ++ ·)).map symbols
      rw [ih, Option.map_map, Option.map_map]
      refine congrArg (Option.map · _) (funext fun v => ?_)
      exact (symbols_append l v).symm

/-- Brackets are ASCII characters. -/
theorem isAscii_of_closerOf? (h : closerOf? opener = some closer) :
    isAscii opener ∧ isAscii closer := by
  rw [closerOf?] at h
  split at h
  · next he => cases h; subst he; decide
  split at h
  · next he => cases h; subst he; decide
  split at h
  · next he => cases h; subst he; decide
  · cases h

/-- A character outside ASCII opens no bracket. -/
theorem closerOf?_of_not_isAscii (hc : isAscii c = false) : closerOf? c = none := by
  cases h : closerOf? c with
  | none => rfl
  | some closer =>
    have hascii := (isAscii_of_closerOf? h).1
    rw [hc] at hascii
    cases hascii

/-- A bracket at the head of the bytes of a text encloses the bytes of what it encloses there. -/
theorem enclosed?_symbols (d : Dialect) (s : List Char) :
    enclosed? d (symbols s) = (enclosed? d s).map symbols := by
  cases s with
  | nil => rfl
  | cons c s =>
    rcases symbols_cases c with ⟨hc, -⟩ | ⟨hc, b, x, hsymbols, hbx⟩
    · rw [symbols_cons_of_isAscii hc, enclosed?, enclosed?]
      cases hcloser : closerOf? c with
      | none => rfl
      | some closer =>
        rw [Option.bind_some, Option.bind_some, codePieces_symbols,
          enclosedIn_inBytes hc (isAscii_of_closerOf? hcloser).2]
    · rw [symbols_cons, hsymbols, List.cons_append, enclosed?, enclosed?,
        closerOf?_of_not_isAscii (hbx b List.mem_cons_self), closerOf?_of_not_isAscii hc]
      rfl

/-! ## Statements -/

/-- The search for the end of a statement goes through characters outside ASCII. -/
theorem statementIn_codes (h : ∀ e ∈ x, isAscii e = false) (depth : Nat) (ps : List Piece) :
    statementIn depth (x.map .code ++ ps) = x ++ statementIn depth ps := by
  induction x with
  | nil => rfl
  | cons e x ih =>
    rw [List.forall_mem_cons] at h
    have hne : ¬ (e = ';' ∧ depth = 0) := fun hsep => ne_of_isAscii h.1 (by decide) hsep.1
    rw [List.map_cons, List.cons_append, statementIn, if_neg hne, depthAfter_of_not_isAscii h.1,
      ih h.2]
    rfl

/-- The statement in pieces of bytes is the bytes of the statement. -/
theorem statementIn_inBytes (depth : Nat) (ps : List Piece) :
    statementIn depth (ps.flatMap Piece.inBytes) = symbols (statementIn depth ps) := by
  induction ps generalizing depth with
  | nil => rfl
  | cons p ps ih =>
    rw [List.flatMap_cons]
    cases p with
    | code c =>
      rcases inBytes_code_cases c with ⟨hascii, hbytes⟩ | ⟨hno, hbytes⟩
      · rw [hbytes, List.singleton_append, statementIn, statementIn]
        split
        · rfl
        · rw [ih, symbols_cons_of_isAscii hascii]
      · have hne : ¬ (c = ';' ∧ depth = 0) := fun hsep => ne_of_isAscii hno (by decide) hsep.1
        rw [Piece.inBytes, statementIn_codes hbytes, ih, statementIn, if_neg hne,
          depthAfter_of_not_isAscii hno, ← symbols_cons]
    | literal l | comment l =>
      rw [Piece.inBytes, List.singleton_append]
      show symbols l ++ statementIn depth (ps.flatMap Piece.inBytes) =
        symbols (l ++ statementIn depth ps)
      rw [ih, symbols_append]

/-- The statement at the head of the bytes of a text is that at its head. -/
theorem statement_symbols (d : Dialect) (s : List Char) :
    statement d (symbols s) = symbols (statement d s) := by
  rw [statement, codePieces_symbols, statementIn_inBytes, statement]

/-! ## Parts -/

/-- A split goes through characters outside ASCII without cutting them. -/
theorem splitPieces_codes (hsep : isAscii sep) (h : ∀ e ∈ x, isAscii e = false) (depth : Nat)
    (ps : List Piece) : splitPieces sep depth (x.map .code ++ ps) =
      (x ++ (splitPieces sep depth ps).1, (splitPieces sep depth ps).2) := by
  induction x with
  | nil => rfl
  | cons e x ih =>
    rw [List.forall_mem_cons] at h
    have hno : separates sep depth e = false := by
      simp [separates, ne_of_isAscii h.1 hsep]
    simp only [List.map_cons, List.cons_append, splitPieces, hno, Bool.false_eq_true, if_false,
      depthAfter_of_not_isAscii h.1, ih h.2]

/-- The parts of pieces of bytes are the bytes of the parts. -/
theorem splitPieces_inBytes (hsep : isAscii sep) (depth : Nat) (ps : List Piece) :
    splitPieces sep depth (ps.flatMap Piece.inBytes) =
      (symbols (splitPieces sep depth ps).1, (splitPieces sep depth ps).2.map symbols) := by
  induction ps generalizing depth with
  | nil => rfl
  | cons p ps ih =>
    rw [List.flatMap_cons]
    cases p with
    | code c =>
      rcases inBytes_code_cases c with ⟨hascii, hbytes⟩ | ⟨hno, hbytes⟩
      · rw [hbytes, List.singleton_append]
        simp only [splitPieces, ih]
        split
        · rfl
        · rw [symbols_cons_of_isAscii hascii]
      · have hcut : separates sep depth c = false := by
          simp [separates, ne_of_isAscii hno hsep]
        rw [Piece.inBytes, splitPieces_codes hsep hbytes, ih]
        simp only [splitPieces, hcut, Bool.false_eq_true, if_false, depthAfter_of_not_isAscii hno]
        rw [← symbols_cons]
    | literal l | comment l =>
      rw [Piece.inBytes, List.singleton_append]
      simp only [splitPieces, ih, Piece.text, symbols_append]

/-- The parts of the bytes of a text are the bytes of its parts. -/
theorem splitTopLevel_symbols (hsep : isAscii sep) (d : Dialect) (s : List Char) :
    splitTopLevel d sep (symbols s) = (splitTopLevel d sep s).map symbols := by
  rw [splitTopLevel, codePieces_symbols, splitPieces_inBytes hsep, splitTopLevel]
  rfl

/-! ## Offsets -/

/-- A text has as many bytes as its size says. -/
theorem length_symbols_eq (s : List Char) : (symbols s).length = byteSize s := by
  rw [symbols, List.length_map, byteSize]

/-- Behind the bytes of a text stand those of the text behind it. -/
theorem drop_symbols_append (x y : List Char) :
    (symbols (x ++ y)).drop (byteSize x) = symbols y := by
  rw [symbols_append, ← length_symbols_eq, List.drop_left]

/-- From an offset between two characters on, a closing bracket is found behind the bytes of what is
enclosed. -/
theorem closingOffset?_append (d : Dialect) (x y : List Char) :
    closingOffset? d (String.ofList (x ++ y)) (byteSize x) =
      (enclosed? d y).map fun inside => byteSize x + 1 + byteSize inside := by
  rw [closingOffset?, byteSymbols_eq, String.toList_ofList, drop_symbols_append,
    enclosed?_symbols, Option.map_map]
  refine congrArg (Option.map · _) (funext fun inside => ?_)
  rw [Function.comp_apply, length_symbols_eq]

/-- From an offset between two characters on, a statement ends behind its bytes. -/
theorem statementEnd_append_eq (d : Dialect) (x y : List Char) :
    statementEnd d (String.ofList (x ++ y)) (byteSize x) =
      byteSize x + byteSize (statement d y) := by
  have hle : byteSize x ≤ (symbols (x ++ y)).length := by
    rw [length_symbols_eq, byteSize_append]
    exact Nat.le_add_right ..
  rw [statementEnd, byteSymbols_eq, String.toList_ofList, if_pos hle, drop_symbols_append,
    statement_symbols, length_symbols_eq]

/-- A split at a byte of ASCII cuts no character: it gives the parts of the text. -/
theorem splitAtByte?_of_isAscii {sep : UInt8} (hsep : isAscii (Char.ofNat sep.toNat)) (d : Dialect)
    (text : String) : splitAtByte? d sep text =
      some ((splitTopLevel d (Char.ofNat sep.toNat) text.toList).map String.ofList) := by
  rw [splitAtByte?, byteSymbols_eq, splitTopLevel_symbols hsep]
  induction splitTopLevel d (Char.ofNat sep.toNat) text.toList with
  | nil => rfl
  | cons part parts ih =>
    rw [List.map_cons, List.mapM_cons, ofByteSymbols?_symbols, ih]
    rfl

end SchemaDrift.Scan
