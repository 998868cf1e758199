import SchemaDrift.Proofs.Scan.Comments

/-!
# What a scan has read before a place

Pieces are `Settled` if a text falls into them whatever follows, as long as that begins with a given
symbol. The pieces before a literal are settled, also after the comments among them were blanked
(`settled_asCode`). A scan over settled pieces does not depend on what follows them either: it is
over before they end, or it goes on behind them from a depth that they alone decide
(`enclosedIn_append`, `splitPieces_append`, `statementIn_append`).
-/

namespace SchemaDrift.Scan

variable {d : Dialect} {c e o sep : Char} {s v : List Char} {p : Piece} {ps qs : List Piece}

/-- A text falls into these pieces whatever follows it that begins with a symbol. -/
def Settled (e : Char) (ps : List Piece) : Prop :=
  ∀ z, codePieces .sql (ps.flatMap Piece.text ++ e :: z) = ps ++ codePieces .sql (e :: z)

/-- The first of settled pieces is a symbol where no literal begins, or a literal that ends where it
does whatever follows. -/
theorem Settled.cons_cases (h : Settled e (p :: ps)) :
    Settled e ps ∧
      ((∃ c, p = .code c ∧ ∀ z, literal? .sql (c :: (ps.flatMap Piece.text ++ e :: z)) = none) ∨
        ∃ s, p = .literal s ∧ ∀ z, literal? .sql (s ++ z) = some s) := by
  have hstep : ∀ z,
      codePieces .sql (ps.flatMap Piece.text ++ e :: z) = ps ++ codePieces .sql (e :: z) ∧
      ((literal? .sql (p.text ++ (ps.flatMap Piece.text ++ e :: z))).map Piece.literal = some p ∨
        (literal? .sql (p.text ++ (ps.flatMap Piece.text ++ e :: z))).map Piece.literal = none ∧
          ∃ c, p = .code c) := by
    intro z
    have hz := h z
    rw [List.flatMap_cons, List.append_assoc, List.cons_append] at hz
    obtain ⟨t, ht, hrest, hp⟩ := exists_of_pieces_eq_cons literalReader_spec hz
    obtain rfl := List.append_cancel_left ht
    exact ⟨hrest.symm, hp⟩
  refine ⟨fun z => (hstep z).1, ?_⟩
  cases p with
  | code c =>
    refine .inl ⟨c, rfl, fun z => ?_⟩
    rcases (hstep z).2 with hp | ⟨hp, -⟩
    · obtain ⟨s, -, hs⟩ := Option.map_eq_some_iff.1 hp
      cases hs
    · exact Option.map_eq_none_iff.1 hp
  | literal s =>
    refine .inr ⟨s, rfl, fun z => ?_⟩
    rcases (hstep []).2 with hp | ⟨-, c, hp⟩
    · obtain ⟨s', hs, hp⟩ := Option.map_eq_some_iff.1 hp
      cases hp
      exact literal?_swap hs (by simp) z
    · cases hp
  | comment k =>
    rcases (hstep []).2 with hp | ⟨-, c, hp⟩
    · obtain ⟨s, -, hs⟩ := Option.map_eq_some_iff.1 hp
      cases hs
    · cases hp

/-- The last of settled pieces are settled. -/
theorem Settled.of_suffix (h : Settled e ps) (hqs : qs <:+ ps) : Settled e qs := by
  induction ps with
  | nil => rwa [List.eq_nil_of_suffix_nil hqs]
  | cons p ps ih =>
    rcases List.suffix_cons_iff.1 hqs with rfl | hqs
    · exact h
    · exact ih h.cons_cases.1 hqs

/-! ## Pieces with blanked comments -/

/-- A piece of a text as it stands after comments were blanked. -/
def Piece.asCode : Piece → List Piece
  | comment k => ((comment k).blanked Char.utf8Size).map .code
  | p => [p]

/-- The text of pieces with their comments read as code is the text with the comments blanked. -/
theorem flatMap_text_asCode (ps : List Piece) : (ps.flatMap Piece.asCode).flatMap Piece.text =
    ps.flatMap (Piece.blanked Char.utf8Size) := by
  induction ps with
  | nil => rfl
  | cons p ps ih =>
    rw [List.flatMap_cons, List.flatMap_append, List.flatMap_cons, ih]
    congr 1
    cases p with
    | code c => rfl
    | literal s => exact List.append_nil s
    | comment k =>
      rw [Piece.asCode, List.flatMap_map]
      exact List.flatMap_singleton' _

/-- A comment among the pieces of a text is read somewhere in it. -/
theorem mem_allPieces_comment {k : List Char} (h : .comment k ∈ allPieces d s) :
    ∃ t, comment? d t = some k := by
  generalize hps : allPieces d s = ps at h
  induction ps generalizing s with
  | nil => cases h
  | cons p ps ih =>
    obtain ⟨t, -, ht, hp⟩ := exists_of_pieces_eq_cons commentReader_spec hps
    rcases List.mem_cons.1 h with rfl | h
    · rcases hp with hp | ⟨-, c, hp⟩
      · obtain ⟨l, hl, -⟩ | ⟨k', hk, hk'⟩ := commentReader_cases hp
        · cases hl
        · cases hk
          exact ⟨s, hk'⟩
      · cases hp
    · exact ih ht.symm h

/-- A blanked comment consists of blanks, and begins with a space. -/
theorem exists_blanked_comment {k t : List Char} (h : comment? d t = some k) :
    ∃ w, (Piece.comment k).blanked Char.utf8Size = ' ' :: w ∧ ∀ c ∈ w, c = ' ' ∨ c = '\n' := by
  have hall : ∀ c ∈ (Piece.comment k).blanked Char.utf8Size, c = ' ' ∨ c = '\n' := by
    intro c hc
    rw [blanked_comment] at hc
    obtain ⟨newline, -, rfl⟩ := List.mem_map.1 hc
    cases newline <;> simp
  have hhead : ∃ w, (Piece.comment k).blanked Char.utf8Size = ' ' :: w := by
    obtain ⟨t, -, rfl⟩ | ⟨t, -, rfl⟩ := comment?_cases h
    · cases d <;> exact ⟨_, rfl⟩
    · exact ⟨_, rfl⟩
  obtain ⟨w, hw⟩ := hhead
  exact ⟨w, hw, fun c hc => hall c (by rw [hw]; exact List.mem_cons_of_mem _ hc)⟩

/-- A text whose comments were blanked is the text, or it is the text up to the symbol where the first
comment begins, and has a space there. -/
theorem blanked_cases (hps : ∀ k, .comment k ∈ ps → ∃ t, comment? d t = some k) :
    ps.flatMap (Piece.blanked Char.utf8Size) = ps.flatMap Piece.text ∨
      ∃ x c s s', ps.flatMap Piece.text = x ++ c :: s ∧
        ps.flatMap (Piece.blanked Char.utf8Size) = x ++ ' ' :: s' := by
  induction ps with
  | nil => exact .inl rfl
  | cons p ps ih =>
    have hrest := ih fun k hk => hps k (List.mem_cons_of_mem p hk)
    have hp : p.blanked Char.utf8Size = p.text ∨ ∃ k, p = .comment k := by
      cases p with
      | code | literal => exact .inl rfl
      | comment k => exact .inr ⟨k, rfl⟩
    rw [List.flatMap_cons, List.flatMap_cons]
    rcases hp with hp | ⟨k, rfl⟩
    · rw [hp]
      rcases hrest with hsame | ⟨x, c, s, s', htext, hblanked⟩
      · exact .inl (by rw [hsame])
      · exact .inr ⟨p.text ++ x, c, s, s', by rw [htext, List.append_assoc],
          by rw [hblanked, List.append_assoc]⟩
    · obtain ⟨t, ht⟩ := hps k List.mem_cons_self
      obtain ⟨c, k, rfl⟩ := List.exists_cons_of_ne_nil (comment?_spec ht).1
      obtain ⟨w, hw, -⟩ := exists_blanked_comment ht
      exact .inr ⟨[], c, k ++ ps.flatMap Piece.text,
        w ++ ps.flatMap (Piece.blanked Char.utf8Size), rfl, by rw [hw]; rfl⟩

/-- What one piece does to the search for a closing bracket: it ends the search, or the search goes
on behind it. -/
theorem enclosedIn_step (o c : Char) (depth : Nat) (p : Piece) :
    (∀ ps, enclosedIn o c depth (p :: ps) = some []) ∨
      ∃ n, ∀ ps, enclosedIn o c depth (p :: ps) = (enclosedIn o c n ps).map (p.text ++ ·) := by
  cases p with
  | code x =>
    by_cases hopen : x = o
    · exact .inr ⟨depth + 1, fun ps => by simp [enclosedIn, hopen, Piece.text]⟩
    by_cases hclose : x = c
    · cases depth with
      | zero => exact .inl fun ps => by simp only [enclosedIn, if_neg hopen, if_pos hclose]
      | succ n =>
        exact .inr ⟨n, fun ps => by simp only [enclosedIn, if_neg hopen, if_pos hclose]; rfl⟩
    · exact .inr ⟨depth, fun ps => by simp [enclosedIn, hopen, hclose, Piece.text]⟩
  | literal | comment => exact .inr ⟨depth, fun ps => by rw [enclosedIn.eq_def]⟩

/-- What is enclosed is a beginning of the text. -/
theorem prefix_of_enclosedIn {depth : Nat} (h : enclosedIn o c depth ps = some v) :
    v <+: ps.flatMap Piece.text := by
  induction ps generalizing depth v with
  | nil => cases h
  | cons p ps ih =>
    rcases enclosedIn_step o c depth p with hp | ⟨n, hp⟩
    · rw [hp] at h
      obtain rfl := Option.some.inj h
      exact List.nil_prefix
    · rw [hp] at h
      obtain ⟨w, hw, rfl⟩ := Option.map_eq_some_iff.1 h
      exact (List.prefix_append_right_inj p.text).2 (ih hw)

/-- What one piece does to the search for the end of a statement. -/
theorem statementIn_step (depth : Nat) (p : Piece) :
    (∀ ps, statementIn depth (p :: ps) = []) ∨
      ∃ n, ∀ ps, statementIn depth (p :: ps) = p.text ++ statementIn n ps := by
  cases p with
  | code x =>
    by_cases hend : x = ';' ∧ depth = 0
    · exact .inl fun ps => by rw [statementIn, if_pos hend]
    · exact .inr ⟨depthAfter depth x, fun ps => by rw [statementIn, if_neg hend]; rfl⟩
  | literal | comment => exact .inr ⟨depth, fun ps => by rw [statementIn.eq_def]⟩

/-- A statement ends within some pieces, or it goes on behind them. -/
theorem statementIn_append (depth : Nat) (ps : List Piece) :
    (∃ v, v <+: ps.flatMap Piece.text ∧ ∀ rest, statementIn depth (ps ++ rest) = v) ∨
      ∃ n, ∀ rest, statementIn depth (ps ++ rest) =
        ps.flatMap Piece.text ++ statementIn n rest := by
  induction ps generalizing depth with
  | nil => exact .inr ⟨depth, fun rest => rfl⟩
  | cons p ps ih =>
    rcases statementIn_step depth p with hp | ⟨n, hp⟩
    · exact .inl ⟨[], List.nil_prefix, fun rest => hp (ps ++ rest)⟩
    rcases ih n with ⟨v, hv, hrest⟩ | ⟨m, hrest⟩
    · exact .inl ⟨p.text ++ v, (List.prefix_append_right_inj p.text).2 hv,
        fun rest => by rw [List.cons_append, hp, hrest]⟩
    · exact .inr ⟨m, fun rest => by
        rw [List.cons_append, hp, hrest, List.flatMap_cons, List.append_assoc]⟩

/-- A statement is a beginning of the text. -/
theorem prefix_of_statementIn (depth : Nat) (ps : List Piece) :
    statementIn depth ps <+: ps.flatMap Piece.text := by
  rcases statementIn_append depth ps with ⟨v, hv, hrest⟩ | ⟨n, hrest⟩
  · have hnil := hrest []
    rw [List.append_nil] at hnil
    rwa [hnil]
  · have hnil := hrest []
    rw [List.append_nil, statementIn, List.append_nil] at hnil
    exact hnil ▸ List.prefix_rfl

end SchemaDrift.Scan
