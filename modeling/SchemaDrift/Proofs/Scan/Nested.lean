import SchemaDrift.Scan.Bracket

/-!
# Code with matched parentheses

A text in which no literal and no comment begins is all code (`codePieces_append`,
`stripComments_eq`). In such a text, a part whose parentheses match is carried over whole by every
scan, at any depth: by the search for a closing parenthesis (`enclosedIn_nested`), by the split at
separators (`splitPieces_nested`) and by the search for the end of a statement
(`statementIn_nested`), the latter two unless a separator stands outside its parentheses.
-/

namespace SchemaDrift.Scan

variable {c : Char} {seps s t x rest : List Char}

/-! ## Plain code -/

/-- Whether a symbol begins neither a literal nor a comment. -/
def isInert (c : Char) : Bool :=
  !(['\'', '"', '$', '-', '/'].contains c)

/-- A text at whose symbols nothing is read falls into symbols of code. -/
theorem pieces_append (read? : List Char → Option Piece) (h : ∀ c ∈ x, ∀ s, read? (c :: s) = none)
    (rest : List Char) : pieces read? 0 (x ++ rest) = x.map .code ++ pieces read? 0 rest := by
  induction x with
  | nil => rfl
  | cons c x ih =>
    rw [List.forall_mem_cons] at h
    simp only [List.cons_append, pieces, h.1, List.map_cons, ih h.2]

/-- An inert symbol begins no literal. -/
theorem literal?_of_isInert (h : isInert c) (s : List Char) : literal? .sql (c :: s) = none := by
  simp only [isInert, List.contains_eq_mem, Bool.not_eq_true', decide_eq_false_iff_not,
    List.mem_cons, not_or] at h
  simp [literal?, h]

/-- An inert symbol begins no comment. -/
theorem comment?_of_isInert (h : isInert c) (s : List Char) : comment? .sql (c :: s) = none := by
  simp only [isInert, List.contains_eq_mem, Bool.not_eq_true', decide_eq_false_iff_not,
    List.mem_cons, not_or] at h
  have hd : ('-' == c) = false := beq_false_of_ne (Ne.symm h.2.2.2.1)
  have hs : ('/' == c) = false := beq_false_of_ne (Ne.symm h.2.2.2.2.1)
  simp [comment?, Dialect.lineMark, List.isPrefixOf, hd, hs]

/-- An inert text falls into its symbols, whatever follows. -/
theorem codePieces_append (h : ∀ c ∈ x, isInert c) (rest : List Char) :
    codePieces .sql (x ++ rest) = x.map .code ++ codePieces .sql rest :=
  pieces_append _ (fun c hc s => by rw [literal?_of_isInert (h c hc)]; rfl) rest

/-- A text in which nothing begins a comment is kept as it is. -/
theorem stripComments_eq (h : ∀ c ∈ x, isInert c) : stripComments .sql x = x := by
  have hpieces : allPieces .sql (x ++ []) = x.map .code ++ [] :=
    pieces_append _ (fun c hc s => by
      rw [literal?_of_isInert (h c hc), comment?_of_isInert (h c hc)]; rfl) []
  rw [List.append_nil, List.append_nil] at hpieces
  rw [stripComments, blankComments, hpieces, List.flatMap_map]
  exact List.flatMap_singleton' x

/-! ## Matched parentheses -/

/-- Whether a symbol is plain code other than a bracket. -/
def isOrdinary (c : Char) : Bool :=
  isInert c && !(['(', ')', '[', ']', '{', '}'].contains c)

/-- An ordinary symbol is inert. -/
theorem isInert_of_isOrdinary (h : isOrdinary c) : isInert c := by
  simp only [isOrdinary, Bool.and_eq_true] at h
  exact h.1

/-- An ordinary symbol opens nothing. -/
theorem isOpener_of_isOrdinary (h : isOrdinary c) : isOpener c = false := by
  simp only [isOrdinary, List.contains_eq_mem, Bool.and_eq_true, Bool.not_eq_true',
    decide_eq_false_iff_not, List.mem_cons, not_or] at h
  simp [isOpener, h]

/-- An ordinary symbol closes nothing. -/
theorem isCloser_of_isOrdinary (h : isOrdinary c) : isCloser c = false := by
  simp only [isOrdinary, List.contains_eq_mem, Bool.and_eq_true, Bool.not_eq_true',
    decide_eq_false_iff_not, List.mem_cons, not_or] at h
  simp [isCloser, h]

/-- An ordinary symbol opens and closes nothing. -/
theorem depthAfter_of_isOrdinary (h : isOrdinary c) (depth : Nat) : depthAfter depth c = depth := by
  simp [depthAfter, isOpener_of_isOrdinary h, isCloser_of_isOrdinary h]

/-- A text of plain code whose parentheses match, with none of the separators outside them. -/
inductive Nested : (seps : List Char) → List Char → Prop
  | nil {seps : List Char} : Nested seps []
  | symbol {seps s : List Char} {c : Char} (hs : Nested seps s) (hc : isOrdinary c)
      (hsep : c ∉ seps) : Nested seps (c :: s)
  | group {seps x s : List Char} :
      Nested [] x → Nested seps s → Nested seps ('(' :: (x ++ ')' :: s))

namespace Nested

/-- Nested texts one after the other are nested. -/
theorem append (hs : Nested seps s) (ht : Nested seps t) : Nested seps (s ++ t) := by
  induction hs with
  | nil => exact ht
  | symbol _ hc hsep ih => exact .symbol (ih ht) hc hsep
  | group hx _ _ ih =>
    rw [List.cons_append, List.append_assoc, List.cons_append]
    exact .group hx (ih ht)

/-- A text that is nested for some separators is nested for fewer. -/
theorem mono {seps' : List Char} (h : seps' ⊆ seps) (hs : Nested seps s) : Nested seps' s := by
  induction hs generalizing seps' with
  | nil => exact .nil
  | symbol _ hc hsep ih => exact .symbol (ih h) hc fun hmem => hsep (h hmem)
  | group hx _ _ ih => exact .group hx (ih h)

/-- A text of ordinary symbols without separators is nested. -/
theorem of_forall (h : ∀ c ∈ s, isOrdinary c ∧ c ∉ seps) : Nested seps s := by
  induction s with
  | nil => exact .nil
  | cons c s ih =>
    rw [List.forall_mem_cons] at h
    exact .symbol (ih h.2) h.1.1 h.1.2

/-- A nested text is inert. -/
theorem isInert (h : Nested seps s) : ∀ c ∈ s, isInert c := by
  induction h with
  | nil => exact List.forall_mem_nil _
  | symbol _ hc _ ih =>
    exact List.forall_mem_cons.2 ⟨isInert_of_isOrdinary hc, ih⟩
  | group _ _ ihx ih =>
    refine List.forall_mem_cons.2 ⟨by decide, ?_⟩
    exact List.forall_mem_append.2 ⟨ihx, List.forall_mem_cons.2 ⟨by decide, ih⟩⟩

end Nested

/-- The search for a closing parenthesis goes through a nested text. -/
theorem enclosedIn_nested (h : Nested seps x) (depth : Nat) (ps : List Piece) :
    enclosedIn '(' ')' depth (x.map .code ++ ps) =
      (enclosedIn '(' ')' depth ps).map (x ++ ·) := by
  induction h generalizing depth ps with
  | nil => simp
  | symbol _ hc _ ih =>
    have hopen := isOpener_of_isOrdinary hc
    have hclose := isCloser_of_isOrdinary hc
    simp only [isOpener, isCloser, Bool.or_eq_false_iff, beq_eq_false_iff_ne] at hopen hclose
    simp [enclosedIn, hopen, hclose, ih, Function.comp_def]
  | group _ _ ihx ih =>
    simp [enclosedIn, ihx, ih, Function.comp_def]

/-- The text of a parenthesis is what stands between it and the one that matches it. -/
theorem enclosed?_nested (h : Nested seps x) (rest : List Char) :
    enclosed? .sql ('(' :: (x ++ ')' :: rest)) = some x := by
  have hcode : codePieces .sql (x ++ ')' :: rest) =
      x.map .code ++ .code ')' :: codePieces .sql rest := by
    rw [codePieces_append h.isInert]
    rfl
  change enclosedIn '(' ')' 0 (codePieces .sql (x ++ ')' :: rest)) = _
  rw [hcode, enclosedIn_nested h]
  simp [enclosedIn]

/-- A split goes through a nested text without cutting it. -/
theorem splitPieces_nested {sep : Char} (h : Nested seps x) (depth : Nat)
    (hsep : depth = 0 → sep ∈ seps) (ps : List Piece) :
    splitPieces sep depth (x.map .code ++ ps) =
      (x ++ (splitPieces sep depth ps).1, (splitPieces sep depth ps).2) := by
  induction h generalizing depth ps with
  | nil => rfl
  | @symbol seps s c _ hc hmem ih =>
    have hno : separates sep depth c = false := by
      by_cases hd : depth = 0
      · have hne : c ≠ sep := fun he => hmem (he ▸ hsep hd)
        simp [separates, hne]
      · simp [separates, hd]
    simp [splitPieces, hno, depthAfter_of_isOrdinary hc, ih depth hsep]
  | group _ _ ihx ih =>
    have hopen : depthAfter depth '(' = depth + 1 := rfl
    have hclose : depthAfter (depth + 1) ')' = depth := rfl
    have hno (d : Nat) : separates sep d '(' = false ∧ separates sep d ')' = false := ⟨rfl, rfl⟩
    simp [splitPieces, hno, hopen, hclose, ihx (depth + 1) nofun, ih depth hsep]

/-- A text falls apart at the separators between parts that hold none. -/
theorem splitPieces_joined {sep : Char} {xs : List (List Char)} (hsep : isOrdinary sep)
    (hx : Nested [sep] x) (hxs : ∀ y ∈ xs, Nested [sep] y) :
    splitPieces sep 0 ((x ++ xs.flatMap (sep :: ·)).map .code) = (x, xs) := by
  have hmem : 0 = 0 → sep ∈ [sep] := fun _ => List.mem_singleton_self sep
  have hyes : separates sep 0 sep := by
    simp [separates, isOpener_of_isOrdinary hsep, isCloser_of_isOrdinary hsep]
  induction xs generalizing x with
  | nil => simpa [splitPieces] using splitPieces_nested hx 0 hmem []
  | cons y xs ih =>
    rw [List.forall_mem_cons] at hxs
    rw [List.map_append, splitPieces_nested hx 0 hmem, List.flatMap_cons, List.cons_append,
      List.map_cons, splitPieces, depthAfter_of_isOrdinary hsep, ih hxs.1 hxs.2, if_pos hyes,
      List.append_nil]

/-- Nested texts joined by a separator are split into themselves. -/
theorem splitTopLevel_joined {sep : Char} {xs : List (List Char)} (hsep : isOrdinary sep)
    (hx : Nested [sep] x) (hxs : ∀ y ∈ xs, Nested [sep] y) :
    splitTopLevel .sql sep (x ++ xs.flatMap (sep :: ·)) = x :: xs := by
  have hinert : ∀ c ∈ x ++ xs.flatMap (sep :: ·), isInert c := by
    simp only [List.forall_mem_append, List.mem_flatMap]
    refine ⟨hx.isInert, ?_⟩
    rintro c ⟨y, hy, hc⟩
    rcases List.mem_cons.1 hc with rfl | hc
    · exact isInert_of_isOrdinary hsep
    · exact (hxs y hy).isInert c hc
  have hcode := codePieces_append hinert []
  rw [List.append_nil] at hcode
  rw [splitTopLevel, hcode]
  simp only [codePieces, pieces, List.append_nil, splitPieces_joined hsep hx hxs]

/-- The search for the end of a statement goes through a nested text. -/
theorem statementIn_nested (h : Nested seps x) (depth : Nat) (hsep : depth = 0 → ';' ∈ seps)
    (ps : List Piece) : statementIn depth (x.map .code ++ ps) = x ++ statementIn depth ps := by
  induction h generalizing depth ps with
  | nil => rfl
  | @symbol seps s c _ hc hmem ih =>
    have hno : ¬(c = ';' ∧ depth = 0) := fun ⟨hc, hd⟩ => hmem (hc ▸ hsep hd)
    simp [statementIn, hno, depthAfter_of_isOrdinary hc, ih depth hsep]
  | group _ _ ihx ih =>
    have hopen : depthAfter depth '(' = depth + 1 := rfl
    have hclose : depthAfter (depth + 1) ')' = depth := rfl
    simp [statementIn, hopen, hclose, ihx (depth + 1) nofun, ih depth hsep]

/-- A statement goes up to the first semicolon outside its parentheses. -/
theorem statement_nested (h : Nested [';'] x) (rest : List Char) :
    statement .sql (x ++ ';' :: rest) = x := by
  have hcode : codePieces .sql (x ++ ';' :: rest) =
      x.map .code ++ .code ';' :: codePieces .sql rest := by
    rw [codePieces_append h.isInert]
    rfl
  rw [statement, hcode, statementIn_nested h 0 (fun _ => List.mem_singleton_self _)]
  simp [statementIn]

end SchemaDrift.Scan
