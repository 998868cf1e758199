import SchemaDrift.Proofs.Migration.Clauses
import SchemaDrift.Proofs.Migration.Steady
import SchemaDrift.Proofs.Text.Search

/-!
# Searches around a literal

If a phrase is read nowhere inside the literals of a text (`quotes`), a search for it finds the same
before a literal, whatever that one holds, and behind it what it finds in the text there
(`occurrences_around`). That nothing is read inside the literals stays true of a part of the text,
for phrases that end with a symbol of their own: a reading of the part is one of the whole
(`Definite.read_append`).
-/

namespace SchemaDrift.Migration

open SchemaDrift.Text SchemaDrift.Scan Phrase

variable {β γ : Type} {c e : Char} {s t z : List Char} {ps qs : List Piece} {k : Keyword}
  {p q : Phrase β} {f : β → Phrase γ}

/-! ## Readings of a longer text -/

/-- A phrase whose readings are decided by what they cover and the symbol behind it. -/
def Local (p : Phrase β) : Prop :=
  ∀ s, ∀ r ∈ p.read s, ∃ w, s = w ++ r.2 ∧ ∀ t, t.head? = r.2.head? → (r.1, t) ∈ p.read (w ++ t)

/-- A phrase whose readings are decided by what they cover, which is something. -/
def Definite (p : Phrase β) : Prop :=
  ∀ s, ∀ r ∈ p.read s, ∃ w, w ≠ [] ∧ s = w ++ r.2 ∧ ∀ t, (r.1, t) ∈ p.read (w ++ t)

/-- A definite phrase is local. -/
theorem Definite.local (hp : Definite p) : Local p := by
  intro s r hr
  obtain ⟨w, -, hw, hread⟩ := hp s r hr
  exact ⟨w, hw, fun t _ => hread t⟩

/-- The phrase that covers nothing is local. -/
theorem local_pure (b : β) : Local (pure b) := by
  intro s r hr
  obtain rfl := mem_read_pure.1 hr
  exact ⟨[], rfl, fun t _ => mem_read_pure.2 rfl⟩

/-- Local phrases one after the other are a local phrase. -/
theorem Local.bind (hp : Local p) (hf : ∀ b, Local (f b)) : Local (p >>= f) := by
  intro s r hr
  obtain ⟨a, ha, hfr⟩ := mem_read_bind.1 hr
  obtain ⟨v, rfl, hv⟩ := hp s a ha
  obtain ⟨w, hw, hread⟩ := hf a.1 a.2 r hfr
  refine ⟨v ++ w, by rw [hw, List.append_assoc], fun t ht => ?_⟩
  have hhead : (w ++ t).head? = a.2.head? := by rw [hw, List.head?_append, List.head?_append, ht]
  rw [List.append_assoc]
  exact mem_read_bind.2 ⟨(a.1, w ++ t), hv _ hhead, hread t ht⟩

/-- A local phrase before a definite one makes a definite phrase. -/
theorem Local.bind_definite (hp : Local p) (hf : ∀ b, Definite (f b)) : Definite (p >>= f) := by
  intro s r hr
  obtain ⟨a, ha, hfr⟩ := mem_read_bind.1 hr
  obtain ⟨v, rfl, hv⟩ := hp s a ha
  obtain ⟨w, hne, hw, hread⟩ := hf a.1 a.2 r hfr
  refine ⟨v ++ w, by simp [hne], by rw [hw, List.append_assoc], fun t => ?_⟩
  have hhead : (w ++ t).head? = a.2.head? := by
    obtain ⟨c, w, rfl⟩ := List.exists_cons_of_ne_nil hne
    rw [hw]
    rfl
  rw [List.append_assoc]
  exact mem_read_bind.2 ⟨(a.1, w ++ t), hv _ hhead, hread t⟩

/-- A definite phrase stays definite with another meaning. -/
theorem Definite.map (hp : Definite p) (g : β → γ) : Definite (do let b ← p; return g b) := by
  intro s r hr
  obtain ⟨a, ha, hr'⟩ := mem_read_bind.1 hr
  obtain rfl := mem_read_pure.1 hr'
  obtain ⟨w, hne, hw, hread⟩ := hp s a ha
  exact ⟨w, hne, hw, fun t => mem_read_bind.2 ⟨_, hread t, mem_read_pure.2 rfl⟩⟩

/-- Either of two local phrases is a local phrase. -/
theorem Local.either (hp : Local p) (hq : Local q) : Local (either p q) := by
  intro s r hr
  rcases mem_read_either.1 hr with hr | hr
  · obtain ⟨w, hw, hread⟩ := hp s r hr
    exact ⟨w, hw, fun t ht => mem_read_either.2 (.inl (hread t ht))⟩
  · obtain ⟨w, hw, hread⟩ := hq s r hr
    exact ⟨w, hw, fun t ht => mem_read_either.2 (.inr (hread t ht))⟩

/-- A local phrase that may be absent is local. -/
theorem Local.optional (hp : Local p) : Local (optional p) :=
  (hp.bind fun b => local_pure (some b)).either (local_pure none)

/-- The spelling of a local phrase is local. -/
theorem Local.spelled (hp : Local p) : Local (spelled p) := by
  intro s r hr
  obtain ⟨a, ha, rfl⟩ := List.mem_map.1 hr
  obtain ⟨w, rfl, hread⟩ := hp s a ha
  refine ⟨w, rfl, fun t ht => List.mem_map.2 ⟨(a.1, t), hread t ht, ?_⟩⟩
  rw [take_before, take_before]

/-- One character of a class is a definite phrase. -/
theorem definite_oneOf (ok : Char → Bool) : Definite (oneOf ok) := by
  intro s r hr
  obtain ⟨hok, rfl⟩ := eq_cons_of_mem_read_oneOf hr
  exact ⟨[r.1], by simp, rfl, fun t => by simp [oneOf, hok]⟩

/-- A given character is a definite phrase. -/
theorem definite_char (c : Char) : Definite (char c) := by
  intro s r hr
  obtain rfl := eq_cons_of_mem_read_char hr
  exact ⟨[c], by simp, rfl, fun t => by simp [Phrase.char]⟩

/-- A run of characters is decided by itself and the character behind it. -/
theorem local_run (ok : Char → Bool) : Local (run ok) := by
  intro s r hr
  obtain rfl := List.mem_singleton.1 hr
  refine ⟨s.takeWhile ok, List.takeWhile_append_dropWhile.symm, fun t ht => ?_⟩
  have hrun : ∀ c ∈ s.takeWhile ok, ok c := fun c hc => List.mem_takeWhile_imp hc
  have hstop : ∀ c ∈ t.head?, ok c = false := by
    intro c hc
    have hnot := List.head?_dropWhile_not ok s
    rw [ht, Option.mem_def] at hc
    rw [hc] at hnot
    simpa using hnot
  simp [run, takeWhile_append_of_stop hrun hstop, dropWhile_append_of_stop hrun hstop]

/-- A run of at least one character is decided by itself and the character behind it. -/
theorem local_run1 (ok : Char → Bool) : Local (run1 ok) :=
  (definite_oneOf ok).local.bind fun _ => (local_run ok).bind fun _ => local_pure _

/-- Blanks are a local phrase. -/
theorem local_blanks : Local blanks :=
  (local_run isBlank).bind fun _ => local_pure _

/-- A keyword is a local phrase. -/
theorem local_keyword (w : String) : Local (keyword w) := by
  rw [keyword]
  induction w.toList with
  | nil => exact local_pure ()
  | cons c cs ih => exact (definite_oneOf _).local.bind fun _ => ih

/-- One of several keywords is a local phrase. -/
theorem local_keywordOf (ws : List String) : Local (keywordOf ws) := by
  induction ws with
  | nil => rintro s r ⟨⟩
  | cons w ws ih => exact (local_keyword w).either ih

/-- Blanks that have to be there are a local phrase. -/
theorem local_blanks1 : Local blanks1 :=
  (local_run1 isBlank).bind fun _ => local_pure _

/-- Keywords one after another are a local phrase. -/
theorem local_keywords (ws : List String) : Local (keywords ws) := by
  induction ws with
  | nil => exact local_pure ()
  | cons w ws ih =>
    exact (local_keyword w).bind fun _ => local_blanks1.bind fun _ => ih

/-- An identifier is a local phrase. -/
theorem local_segment : Local segment := by
  have hquoted : Local quotedName :=
    (definite_char _).local.bind fun _ => (local_run1 _).bind fun _ =>
      (definite_char _).local.bind fun _ => local_pure _
  have hplain : Local (plainName isFoldedNameStart) :=
    (definite_oneOf _).local.bind fun _ => (local_run _).bind fun _ => local_pure _
  exact ((hquoted.bind fun _ => local_pure _).either (hplain.bind fun _ => local_pure _)).spelled

/-- A name is a local phrase, with or without a dot in it. -/
theorem local_qualifiedName : Local qualifiedName :=
  (local_segment.bind fun _ => Local.optional <|
    local_blanks.bind fun _ => (definite_char _).local.bind fun _ =>
      local_blanks.bind fun _ => local_segment).spelled

/-- A column in parentheses is decided by what it covers, since it ends with a parenthesis. -/
theorem definite_parenthesized : Definite parenthesized :=
  (definite_char _).local.bind_definite fun _ => local_blanks.bind_definite fun _ =>
    local_segment.bind_definite fun s => local_blanks.bind_definite fun _ =>
      (definite_char _).map fun _ => s

/-- A reference is decided by what it covers. -/
theorem definite_referencesClause : Definite referencesClause :=
  (local_keywords _).bind_definite fun _ => local_qualifiedName.bind_definite fun table =>
    local_blanks.bind_definite fun _ => definite_parenthesized.map (Reference.mk table)

/-- A foreign key constraint is decided by what it covers. -/
theorem definite_foreignKeyClause : Definite foreignKeyClause :=
  (local_keywords _).bind_definite fun _ => (local_keyword _).bind_definite fun _ =>
    local_blanks.bind_definite fun _ => definite_parenthesized.local.bind_definite fun column =>
      local_blanks.bind_definite fun _ => definite_referencesClause.map fun target =>
        (column, target)

/-! ## Readings inside literals -/

/-- Whether a phrase is read somewhere inside a text, behind its first symbol, given the text that
follows. -/
def readsInside (p : Phrase β) : List Char → List Char → Bool
  | c :: d :: s, rest =>
    !((atWordStart p (some c)).read (d :: s ++ rest)).isEmpty || readsInside p (d :: s) rest
  | _, _ => false

/-- Whether a phrase is read somewhere inside the literals among some pieces, given the text that
follows. -/
def quotes (p : Phrase β) : List Piece → List Char → Bool
  | [], _ => false
  | .literal s :: ps, rest =>
    readsInside p s (ps.flatMap Piece.text ++ rest) || quotes p ps rest
  | _ :: ps, rest => quotes p ps rest

/-- What is read inside literals is read inside those at the front or inside those behind. -/
theorem quotes_append (p : Phrase β) (ps qs : List Piece) (rest : List Char) :
    quotes p (ps ++ qs) rest =
      (quotes p ps (qs.flatMap Piece.text ++ rest) || quotes p qs rest) := by
  induction ps with
  | nil => rfl
  | cons a ps ih =>
    cases a with
    | literal s =>
      simp only [List.cons_append, quotes, ih, List.flatMap_append, List.append_assoc,
        Bool.or_assoc]
    | code | comment => exact ih

/-- What is read inside no literal is read inside none of the last ones. -/
theorem quotes_of_suffix {rest : List Char} (h : quotes p ps rest = false) (hqs : qs <:+ ps) :
    quotes p qs rest = false := by
  obtain ⟨ws, rfl⟩ := hqs
  rw [quotes_append, Bool.or_eq_false_iff] at h
  exact h.2

section Cut

variable {l l' x y : List Char}

end Cut

/-! ## Searches -/

/-- A phrase that opens with a keyword is not read off a quote. -/
theorem Opens.read_quote (hp : Opens k p) (hc : opensQuote c) (s : List Char) :
    p.read (c :: s) = [] := by
  obtain ⟨ks, f, rfl⟩ := hp
  have hkeyword : (keyword k.word).read (c :: s) = [] := by
    obtain ⟨x, w, hw⟩ := List.exists_cons_of_ne_nil k.word_ne_nil
    have hx : c ≠ x := by
      rintro rfl
      have hlower := k.isLower_word c (by rw [hw]; exact List.mem_cons_self ..)
      rcases opensQuote_cases hc with rfl | rfl | rfl <;> cases hlower
    rw [keyword, hw, keywordLetters, read_bind]
    simp [oneOf, foldCase_of_opensQuote hc, hx]
  rw [read_bind, keywords, read_bind, hkeyword]
  rfl

/-- A phrase that opens with a keyword does not begin with a quote. -/
theorem Opens.best?_quote (hp : Opens k p) (hc : opensQuote c) (before : Option Char)
    (s : List Char) : (atWordStart p before).best? (c :: s) = none := by
  unfold atWordStart
  split
  · rfl
  · rw [best?, hp.read_quote hc]
    rfl

/-- A search goes through a literal in which nothing is read. -/
theorem search_inside {rest : List Char} (h : readsInside p (c :: s) rest = false) (i : Nat) :
    search (atWordStart p) 0 i (some c) (s ++ rest) =
      search (atWordStart p) 0 (i + s.length) (c :: s).getLast? rest := by
  induction s generalizing c i with
  | nil => rfl
  | cons d s ih =>
    rw [readsInside, Bool.or_eq_false_iff, Bool.not_eq_false', List.isEmpty_iff] at h
    have hnone : (atWordStart p (some c)).best? (d :: (s ++ rest)) = none := by
      rw [best?, ← List.cons_append, h.1]
      rfl
    rw [List.cons_append, search, hnone]
    show search (atWordStart p) 0 (i + 1) (some d) (s ++ rest) = _
    rw [ih h.2, List.length_cons, List.getLast?_cons_cons]
    congr 1
    omega

/-- A search passes over a literal inside which the phrase is not read. -/
theorem Opens.search_literal (hp : Opens k p) (hc : opensQuote c) {rest : List Char}
    (h : readsInside p (c :: s) rest = false) (i : Nat) (before : Option Char) :
    search (atWordStart p) 0 i before (c :: s ++ rest) =
      search (atWordStart p) 0 (i + (c :: s).length) (c :: s).getLast? rest := by
  rw [List.cons_append, search, hp.best?_quote hc]
  show search (atWordStart p) 0 (i + 1) (some c) (s ++ rest) = _
  rw [search_inside h, List.length_cons]
  congr 1
  omega

/-- What a search has found before a place: where it starts and stops, what it means, and the pieces
between it and the place. -/
structure Found (β : Type) where
  start : Nat
  stop : Nat
  value : β
  behind : List Piece

/-- The occurrence that was found, given the text from the place on. -/
def Found.occurrence (z : List Char) (o : Found β) : Occurrence β :=
  ⟨o.start, o.stop, o.value, o.behind.flatMap Piece.text ++ z⟩

/-- What was found in pieces that begin at a position lies within them. -/
structure Found.Within (o : Found β) (i : Nat) (ps : List Piece) : Prop where
  start_le : i ≤ o.start
  start_lt : o.start < i + (ps.flatMap Piece.text).length
  stop_add : o.stop + (o.behind.flatMap Piece.text).length = i + (ps.flatMap Piece.text).length
  behind : o.behind <:+ ps

/-- What lies within pieces lies within them when one more stands in front. -/
theorem Found.Within.cons {o : Found β} {i : Nat} {a : Piece}
    (h : o.Within (i + a.text.length) ps) : o.Within i (a :: ps) := by
  obtain ⟨hle, hlt, hstop, hbehind⟩ := h
  have hlen : ((a :: ps).flatMap Piece.text).length =
      a.text.length + (ps.flatMap Piece.text).length := by
    rw [List.flatMap_cons, List.length_append]
  exact ⟨by omega, by omega, by omega, hbehind.trans (List.suffix_cons a ps)⟩

/-- Asking for the start of a word keeps a phrase steady. -/
theorem steady_atWordStart (hp : Steady e p) (before : Option Char) :
    Steady e (atWordStart p before) := by
  unfold atWordStart
  split
  · exact steady_never
  · exact hp

/-- A search of some pieces finds the same before a literal that begins with a symbol, whatever the
literal holds. -/
def SearchesAlike (e : Char) (p : Phrase β) (ps : List Piece) (i : Nat) (before : Option Char) :
    Prop :=
  ∃ (front : List (Found β)) (last : Option Char), (∀ o ∈ front, o.Within i ps) ∧
    ∀ z, quotes p ps (e :: z) = false →
      search (atWordStart p) 0 i before (ps.flatMap Piece.text ++ e :: z) =
        front.map (Found.occurrence (e :: z)) ++
          search (atWordStart p) 0 (i + (ps.flatMap Piece.text).length) last (e :: z)

namespace SearchesAlike

variable {i : Nat} {before : Option Char}

/-- A search that finds the same behind a literal finds the same from its first symbol on. -/
theorem literal (hp : Opens k p) (hc : opensQuote c)
    (h : SearchesAlike e p ps (i + (c :: s).length) (c :: s).getLast?) :
    SearchesAlike e p (.literal (c :: s) :: ps) i before := by
  obtain ⟨front, last, hfront, hsearch⟩ := h
  refine ⟨front, last, fun o ho => (hfront o ho).cons, fun z hquiet => ?_⟩
  rw [quotes, Bool.or_eq_false_iff] at hquiet
  rw [List.flatMap_cons, Piece.text, List.append_assoc, hp.search_literal hc hquiet.1,
    hsearch z hquiet.2, List.length_append, Nat.add_assoc]

/-- A symbol of code where the phrase is not read is passed over. -/
theorem unread (hnone : ∀ z, (atWordStart p before).best? (c :: (ps.flatMap Piece.text ++ e :: z)) =
      none) (h : SearchesAlike e p ps (i + 1) (some c)) :
    SearchesAlike e p (.code c :: ps) i before := by
  obtain ⟨front, last, hfront, hsearch⟩ := h
  refine ⟨front, last, fun o ho => (hfront o ho).cons, fun z hquiet => ?_⟩
  have hstep : search (atWordStart p) 0 i before (c :: (ps.flatMap Piece.text ++ e :: z)) =
      search (atWordStart p) 0 (i + 1) (some c) (ps.flatMap Piece.text ++ e :: z) := by
    rw [search, hnone z]
  have hlen : i + ((Piece.code c :: ps).flatMap Piece.text).length =
      i + 1 + (ps.flatMap Piece.text).length := by
    simp [Piece.text]
    omega
  rw [hlen, ← hsearch z hquiet, ← hstep]
  rfl

/-- A reading that covers nothing is found, and the search goes on behind the next symbol. -/
theorem empty {v : β} (hread : ∀ z, (atWordStart p before).best?
      (c :: (ps.flatMap Piece.text ++ e :: z)) = some (v, c :: (ps.flatMap Piece.text ++ e :: z)))
    (h : SearchesAlike e p ps (i + 1) (some c)) : SearchesAlike e p (.code c :: ps) i before := by
  obtain ⟨front, last, hfront, hsearch⟩ := h
  have hlen : ((Piece.code c :: ps).flatMap Piece.text).length =
      1 + (ps.flatMap Piece.text).length := by
    simp [Piece.text]
    omega
  refine ⟨⟨i, i, v, .code c :: ps⟩ :: front, last, fun o ho => ?_, fun z hquiet => ?_⟩
  · rcases List.mem_cons.1 ho with rfl | ho
    · exact ⟨Nat.le_refl i, Nat.lt_add_of_pos_right (by omega), rfl, List.suffix_rfl⟩
    · exact (hfront o ho).cons
  · have hstep : search (atWordStart p) 0 i before (c :: (ps.flatMap Piece.text ++ e :: z)) =
        ⟨i, i, v, c :: (ps.flatMap Piece.text ++ e :: z)⟩ ::
          search (atWordStart p) 0 (i + 1) (some c) (ps.flatMap Piece.text ++ e :: z) := by
      simp only [search, hread z, Nat.sub_self, Nat.add_zero]
    rw [hlen, ← Nat.add_assoc, List.map_cons, List.cons_append, ← hsearch z hquiet]
    exact hstep

/-- A reading that covers some pieces is found, and the search goes on behind them. -/
theorem read {v : β} {ws : List Piece} (hread : ∀ z, (atWordStart p before).best?
      ((.code c :: ws ++ ps).flatMap Piece.text ++ e :: z) =
        some (v, ps.flatMap Piece.text ++ e :: z))
    (h : SearchesAlike e p ps (i + ((Piece.code c :: ws).flatMap Piece.text).length)
      (((Piece.code c :: ws).flatMap Piece.text).getLast?.or before)) :
    SearchesAlike e p (.code c :: ws ++ ps) i before := by
  obtain ⟨front, last, hfront, hsearch⟩ := h
  have hlen : ((Piece.code c :: ws ++ ps).flatMap Piece.text).length =
      ((Piece.code c :: ws).flatMap Piece.text).length + (ps.flatMap Piece.text).length := by
    rw [List.flatMap_append, List.length_append]
  have hpos : 0 < ((Piece.code c :: ws).flatMap Piece.text).length := by simp [Piece.text]
  refine ⟨⟨i, i + ((Piece.code c :: ws).flatMap Piece.text).length, v, ps⟩ :: front, last,
    fun o ho => ?_, fun z hquiet => ?_⟩
  · rcases List.mem_cons.1 ho with rfl | ho
    · exact ⟨Nat.le_refl i, Nat.lt_add_of_pos_right (by omega), by rw [hlen, Nat.add_assoc],
        List.suffix_append _ _⟩
    · obtain ⟨hle, hlt, hstop, hbehind⟩ := hfront o ho
      exact ⟨by omega, by omega, by omega, hbehind.trans (List.suffix_append _ _)⟩
  · have hfound := hread z
    rw [List.flatMap_append, List.append_assoc] at hfound ⊢
    rw [search_found i (by simp [Piece.text]) hfound,
      hsearch z (quotes_of_suffix hquiet (List.suffix_append _ _)), List.length_append,
      Nat.add_assoc]
    rfl

end SearchesAlike

/-- Before a literal, a search finds the same whatever the literal holds. -/
theorem searchesAlike (hp : Opens k p) (hs : Steady e p) (hps : Clear e ps) (i : Nat)
    (before : Option Char) : SearchesAlike e p ps i before := by
  -- A reading may cover several pieces, so the induction is on how many there are.
  induction hn : ps.length using Nat.strong_induction_on generalizing ps i before with
  | _ n ih =>
    subst hn
    cases ps with
    | nil => exact ⟨[], before, by simp, fun z _ => rfl⟩
    | cons a ps =>
      obtain ⟨htail, ⟨c, rfl, -⟩ | ⟨q, s, rfl, hq, -⟩⟩ := hps.cons_cases
      · have hnext := ih ps.length (by simp) htail (i + 1) (some c) rfl
        obtain ⟨rs, hrs, hread⟩ := steady_atWordStart hs before _ hps
        have hbest : ∀ z, (atWordStart p before).best? (c :: (ps.flatMap Piece.text ++ e :: z)) =
            (rs.map (resume (e :: z))).head? := fun z => congrArg List.head? (hread z)
        cases rs with
        | nil => exact .unread hbest hnext
        | cons r rs =>
          obtain ⟨v, behind⟩ := r
          rcases List.suffix_cons_iff.1 (hrs _ (List.mem_cons_self ..)) with heq | ⟨ws, hws⟩
          · obtain rfl : behind = .code c :: ps := heq
            exact .empty hbest hnext
          · obtain rfl : ws ++ behind = ps := hws
            have hbehind : Clear e behind := htail.of_suffix (List.suffix_append ws behind)
            exact .read hbest (ih behind.length (by simp) hbehind _ _ rfl)
      · exact .literal hp hq (ih ps.length (by simp) htail _ _ rfl)

/-- An occurrence further on in a text. -/
def shifted (n : Nat) (o : Occurrence β) : Occurrence β :=
  { o with start := o.start + n, stop := o.stop + n }

/-- A search that begins further on finds the same, further on. -/
theorem search_add (p : Option Char → Phrase β) (skip i n : Nat) (before : Option Char)
    (s : List Char) : search p skip (i + n) before s =
      (search p skip i before s).map (shifted n) := by
  induction s generalizing skip i before with
  | nil => cases skip <;> rfl
  | cons c s ih =>
    have hnext : ∀ skip before, search p skip (i + n + 1) before s =
        (search p skip (i + 1) before s).map (shifted n) := by
      intro skip before
      rw [← ih, Nat.add_right_comm]
    cases skip with
    | succ skip => exact hnext skip (some c)
    | zero =>
      rw [search, search]
      cases (p before).best? (c :: s) with
      | none => exact hnext 0 (some c)
      | some r =>
        refine List.cons_eq_cons.2 ⟨?_, hnext _ (some c)⟩
        simp only [shifted, Nat.add_right_comm]

/-- Around a literal: what a search finds before it does not depend on what it holds, and behind it
the search finds what it finds in the text there. -/
theorem occurrences_around (hp : Opens k p) (hs : Steady e p) (he : e = '\'' ∨ e = '$')
    (hps : Clear e ps) : ∃ front : List (Found β), (∀ o ∈ front, o.Within 0 ps) ∧
      ∀ l y : List Char, l.head? = some e → (y = [] ∨ l.getLast?.any isWord = false) →
        quotes p (ps ++ [.literal l]) y = false →
        occurrences (atWordStart p) (ps.flatMap Piece.text ++ (l ++ y)) =
          front.map (Found.occurrence (l ++ y)) ++ (occurrences (atWordStart p) y).map
            (shifted ((ps.flatMap Piece.text).length + l.length)) := by
  obtain ⟨front, last, hfront, hsearch⟩ := searchesAlike hp hs hps 0 none
  refine ⟨front, hfront, fun l y hhead hy hquiet => ?_⟩
  obtain ⟨m, rfl⟩ := List.head?_eq_some_iff.1 hhead
  rw [quotes_append, Bool.or_eq_false_iff] at hquiet
  have hinside : readsInside p (e :: m) y = false := by simpa [quotes] using hquiet.2
  have hfirst := hsearch (m ++ y) (by simpa [Piece.text] using hquiet.1)
  have hopens : opensQuote e := by rcases he with rfl | rfl <;> rfl
  have hback : search (atWordStart p) 0 (0 + (ps.flatMap Piece.text).length) last (e :: (m ++ y)) =
      (occurrences (atWordStart p) y).map
        (shifted ((ps.flatMap Piece.text).length + (e :: m).length)) := by
    have hafter : ∀ n, search (atWordStart p) 0 n (e :: m).getLast? y = hits p n y := by
      intro n
      rcases hy with rfl | hy
      · rfl
      · exact hp.search_eq_hits n (.inr hy)
    rw [← List.cons_append, hp.search_literal hopens hinside, hafter, hits, occurrences,
      ← search_add, Nat.zero_add, Nat.zero_add]
  rw [occurrences, List.cons_append, hfirst, hback]

end SchemaDrift.Migration
