import SchemaDrift.Proofs.Migration.Words
import SchemaDrift.Proofs.Scan.Settled

/-!
# Phrases that do not look into a literal

Before a literal that begins with a single quote or a dollar sign, the phrases of migrations are
read off whole pieces, and in the same ways whatever the literal holds (`Steady`). What has to be
kept apart is a name and a dollar quote right behind it: there the scan sees a literal, while the
name goes on with the dollar sign (`gluesDollar`).
-/

namespace SchemaDrift.Migration

open SchemaDrift.Text SchemaDrift.Scan Phrase

variable {β γ : Type} {c e : Char} {s l : List Char} {a : Piece} {ps qs : List Piece}
  {p q : Phrase β} {f : β → Phrase γ}

/-! ## Pieces before a literal -/

/-- Whether a literal may begin with a symbol. -/
def opensQuote (c : Char) : Bool :=
  c == '\'' || c == '"' || c == '$'

/-- A literal begins with a quote of one of two kinds or with a dollar sign. -/
theorem opensQuote_cases (h : opensQuote c) : c = '\'' ∨ c = '"' ∨ c = '$' := by
  simpa [opensQuote, or_assoc] using h

/-- What begins a literal is not blank. -/
theorem isBlank_of_opensQuote (hc : opensQuote c) : isBlank c = false := by
  rcases opensQuote_cases hc with rfl | rfl | rfl <;> decide

/-- What begins a literal has no case. -/
theorem foldCase_of_opensQuote (hc : opensQuote c) : foldCase c = c := by
  rcases opensQuote_cases hc with rfl | rfl | rfl <;> decide

/-- A literal begins with a symbol that may begin one. -/
theorem exists_opensQuote (h : literal? .sql s = some l) : ∃ c t, s = c :: t ∧ opensQuote c := by
  cases s with
  | nil => cases h
  | cons c s =>
    refine ⟨c, s, rfl, ?_⟩
    by_contra hc
    simp only [opensQuote, Bool.or_eq_true, beq_iff_eq, not_or] at hc
    simp [literal?, hc] at h

/-- Whether a dollar quote comes first. -/
def startsDollar : List Piece → Bool
  | .literal s :: _ => s.head? == some '$'
  | _ => false

/-- Whether a dollar quote directly follows a symbol that a name may hold. -/
def gluesDollar : List Piece → Bool
  | [] => false
  | .code c :: ps => isNameChar c && startsDollar ps || gluesDollar ps
  | _ :: ps => gluesDollar ps

/-- Settled pieces before a literal that begins with a symbol, none of which is a name with a dollar
quote right behind it. -/
structure Clear (e : Char) (ps : List Piece) : Prop where
  settled : Settled e ps
  unglued : gluesDollar (ps ++ [.literal [e]]) = false

/-- Pieces behind the first one glue no dollar quote if none is glued at all. -/
theorem gluesDollar_cons (h : gluesDollar (a :: ps) = false) : gluesDollar ps = false := by
  cases a with
  | code => exact (Bool.or_eq_false_iff.1 h).2
  | literal | comment => exact h

/-- The last pieces glue no dollar quote if none is glued at all. -/
theorem gluesDollar_of_suffix (h : gluesDollar ps = false) (hqs : qs <:+ ps) :
    gluesDollar qs = false := by
  induction ps with
  | nil => rwa [List.eq_nil_of_suffix_nil hqs]
  | cons a ps ih =>
    rcases List.suffix_cons_iff.1 hqs with rfl | hqs
    · exact h
    · exact ih (gluesDollar_cons h) hqs

namespace Clear

/-- The last pieces before a literal are clear if all are. -/
theorem of_suffix (h : Clear e ps) (hqs : qs <:+ ps) : Clear e qs := by
  refine ⟨h.settled.of_suffix hqs, gluesDollar_of_suffix h.unglued ?_⟩
  obtain ⟨rs, rfl⟩ := hqs
  exact ⟨rs, (List.append_assoc ..).symm⟩

/-- The first piece is a symbol, with no dollar quote behind it if a name may hold it, or a literal
that ends where it does whatever follows. -/
theorem cons_cases (h : Clear e (a :: ps)) : Clear e ps ∧
    ((∃ c, a = .code c ∧ (∀ z, literal? .sql (c :: (ps.flatMap Piece.text ++ e :: z)) = none) ∧
        (isNameChar c → startsDollar (ps ++ [.literal [e]]) = false)) ∨
      ∃ q s, a = .literal (q :: s) ∧ opensQuote q ∧
        ∀ z, literal? .sql (q :: s ++ z) = some (q :: s)) := by
  refine ⟨h.of_suffix (List.suffix_cons a ps), ?_⟩
  obtain ⟨-, ⟨c, rfl, hc⟩ | ⟨s, rfl, hs⟩⟩ := h.settled.cons_cases
  · refine .inl ⟨c, rfl, hc, fun hname => ?_⟩
    have hglue := (Bool.or_eq_false_iff.1 h.unglued).1
    rwa [hname, Bool.true_and] at hglue
  · have hself := hs []
    rw [List.append_nil] at hself
    obtain ⟨q, s, rfl, hq⟩ := exists_opensQuote hself
    exact .inr ⟨q, s, rfl, hq, hs⟩

/-- A symbol of code opens no quote, unless it is a dollar sign. -/
theorem not_quote (h : Clear e (.code c :: ps)) : c ≠ '\'' ∧ c ≠ '"' := by
  obtain ⟨-, ⟨c', heq, hc, -⟩ | ⟨q, s, heq, -⟩⟩ := h.cons_cases
  · obtain ⟨rfl⟩ := heq
    have hnone := hc []
    constructor <;> rintro rfl <;> simp [literal?] at hnone
  · cases heq

/-- The text begins with a symbol of code, or with the quote of a literal. -/
theorem start_cases (h : Clear e ps) (he : e = '\'' ∨ e = '$') :
    (∃ c qs, ps = .code c :: qs) ∨
      ∃ q, opensQuote q ∧ ∀ z, ∃ t, ps.flatMap Piece.text ++ e :: z = q :: t := by
  cases ps with
  | nil => exact .inr ⟨e, by rcases he with rfl | rfl <;> rfl, fun z => ⟨z, rfl⟩⟩
  | cons a ps =>
    obtain ⟨-, ⟨c, rfl, -⟩ | ⟨q, s, rfl, hq, -⟩⟩ := h.cons_cases
    · exact .inl ⟨c, ps, rfl⟩
    · exact .inr ⟨q, hq, fun z => ⟨_, rfl⟩⟩

/-- A run of symbols of a class stops before a literal, if no quote belongs to the class and either
no dollar sign does, or only symbols of names do and no dollar quote comes first. -/
theorem exists_run (ok : Char → Bool) (h : Clear e ps) (he : e = '\'' ∨ e = '$')
    (hquote : ok '\'' = false ∧ ok '"' = false)
    (hdollar : ok '$' → (∀ c, ok c → isNameChar c) ∧ startsDollar (ps ++ [.literal [e]]) = false) :
    ∃ w qs, qs <:+ ps ∧ ∀ z, (ps.flatMap Piece.text ++ e :: z).takeWhile ok = w ∧
      (ps.flatMap Piece.text ++ e :: z).dropWhile ok = qs.flatMap Piece.text ++ e :: z := by
  -- The run stops at the head of a text that begins with a symbol outside the class.
  have hstop : ∀ {c : Char} {qs : List Piece} {t : List Char → List Char}, ok c = false →
      (∀ z, qs.flatMap Piece.text ++ e :: z = c :: t z) → ∀ z,
        (qs.flatMap Piece.text ++ e :: z).takeWhile ok = [] ∧
          (qs.flatMap Piece.text ++ e :: z).dropWhile ok = qs.flatMap Piece.text ++ e :: z := by
    intro c qs t hc ht z
    rw [ht z]
    simp [hc]
  induction ps with
  | nil =>
    have hoke : ok e = false := by
      rcases he with rfl | rfl
      · exact hquote.1
      · by_contra hok
        have := (hdollar (by simpa using hok)).2
        simp [startsDollar] at this
    exact ⟨[], [], List.suffix_rfl, hstop hoke fun z => rfl⟩
  | cons a ps ih =>
    obtain ⟨hps, ⟨c, rfl, -, hglue⟩ | ⟨q, s, rfl, hq, -⟩⟩ := h.cons_cases
    · cases hok : ok c with
      | true =>
        obtain ⟨w, qs, hqs, hw⟩ := ih hps fun hd =>
          ⟨(hdollar hd).1, hglue ((hdollar hd).1 c hok)⟩
        refine ⟨c :: w, qs, hqs.trans (List.suffix_cons _ _), fun z => ?_⟩
        simp only [List.flatMap_cons, Piece.text, List.cons_append, List.nil_append,
          List.takeWhile_cons, List.dropWhile_cons, hok, if_true, (hw z).1, (hw z).2, true_and]
      | false => exact ⟨[], .code c :: ps, List.suffix_rfl, hstop hok fun z => rfl⟩
    · have hokq : ok q = false := by
        rcases opensQuote_cases hq with rfl | rfl | rfl
        · exact hquote.1
        · exact hquote.2
        · by_contra hok
          have := (hdollar (by simpa using hok)).2
          simp [startsDollar] at this
      exact ⟨[], .literal (q :: s) :: ps, List.suffix_rfl, hstop hokq fun z => rfl⟩

end Clear

/-! ## Steady phrases -/

/-- A reading with the pieces behind it, as a reading of a text that ends with `z`. -/
def resume (z : List Char) (r : β × List Piece) : β × List Char :=
  (r.1, r.2.flatMap Piece.text ++ z)

/-- A phrase that is read off whole pieces before a literal that begins with a symbol, in the same
ways whatever the literal holds and whatever follows it. -/
def Steady (e : Char) (p : Phrase β) : Prop :=
  ∀ ps, Clear e ps → ∃ rs : List (β × List Piece), (∀ r ∈ rs, r.2 <:+ ps) ∧
    ∀ z, p.read (ps.flatMap Piece.text ++ e :: z) = rs.map (resume (e :: z))

/-- The phrase that covers nothing is steady. -/
theorem steady_pure (b : β) : Steady e (pure b) :=
  fun ps _ => ⟨[(b, ps)], by simp, fun _ => rfl⟩

/-- The phrase that nothing is, is steady. -/
theorem steady_never : Steady e (never : Phrase β) :=
  fun _ _ => ⟨[], by simp, fun _ => rfl⟩

/-- Steady phrases one after the other are a steady phrase. -/
theorem Steady.bind (hp : Steady e p) (hf : ∀ b, Steady e (f b)) : Steady e (p >>= f) := by
  intro ps hps
  obtain ⟨rs, hrs, hread⟩ := hp ps hps
  have hall : ∃ out : List (γ × List Piece), (∀ r ∈ out, r.2 <:+ ps) ∧ ∀ z,
      (rs.map (resume (e :: z))).flatMap (fun r => (f r.1).read r.2) =
        out.map (resume (e :: z)) := by
    clear hread
    induction rs with
    | nil => exact ⟨[], by simp, fun _ => rfl⟩
    | cons r rs ih =>
      rw [List.forall_mem_cons] at hrs
      obtain ⟨out, hout, hrest⟩ := ih hrs.2
      obtain ⟨out', hout', hfirst⟩ := hf r.1 r.2 (hps.of_suffix hrs.1)
      refine ⟨out' ++ out, fun r' hr' => ?_, fun z => ?_⟩
      · rcases List.mem_append.1 hr' with hr' | hr'
        · exact (hout' r' hr').trans hrs.1
        · exact hout r' hr'
      · rw [List.map_cons, List.flatMap_cons, hrest, List.map_append]
        congr 1
        exact hfirst z
  obtain ⟨out, hout, hflat⟩ := hall
  exact ⟨out, hout, fun z => by rw [read_bind, hread, hflat]⟩

/-- The readings of either of two phrases are those of the first and then those of the second. -/
theorem read_either (p q : Phrase β) (s : List Char) :
    (either p q).read s = p.read s ++ q.read s :=
  rfl

/-- The readings of a spelling are the texts that the phrase covers. -/
theorem read_spelled (p : Phrase β) (s : List Char) : (spelled p).read s =
    (p.read s).map fun r => (s.take (s.length - r.2.length), r.2) :=
  rfl

/-- Either of two steady phrases is a steady phrase. -/
theorem Steady.either (hp : Steady e p) (hq : Steady e q) : Steady e (either p q) := by
  intro ps hps
  obtain ⟨rs, hrs, hreadp⟩ := hp ps hps
  obtain ⟨rs', hrs', hreadq⟩ := hq ps hps
  refine ⟨rs ++ rs', fun r hr => ?_, fun z => ?_⟩
  · rcases List.mem_append.1 hr with hr | hr
    · exact hrs r hr
    · exact hrs' r hr
  · rw [read_either, hreadp, hreadq, List.map_append]

/-- A steady phrase that may be absent is steady. -/
theorem Steady.optional (hp : Steady e p) : Steady e (optional p) :=
  (hp.bind fun b => steady_pure (some b)).either (steady_pure none)

/-- What stands before the end of a text is its beginning. -/
theorem take_before (u v : List Char) : (u ++ v).take ((u ++ v).length - v.length) = u := by
  rw [List.length_append, Nat.add_sub_cancel, List.take_left]

/-- The spelling of a steady phrase is steady. -/
theorem Steady.spelled (hp : Steady e p) : Steady e (spelled p) := by
  intro ps hps
  obtain ⟨rs, hrs, hread⟩ := hp ps hps
  refine ⟨rs.map fun r => ((ps.flatMap Piece.text).take
    ((ps.flatMap Piece.text).length - (r.2.flatMap Piece.text).length), r.2), fun r hr => ?_,
    fun z => ?_⟩
  · obtain ⟨r', hr', rfl⟩ := List.mem_map.1 hr
    exact hrs r' hr'
  · rw [read_spelled, hread, List.map_map, List.map_map]
    refine List.map_congr_left fun r hr => Prod.ext ?_ rfl
    obtain ⟨ws, hws⟩ := hrs r hr
    rw [← hws]
    simp only [Function.comp, resume, List.flatMap_append]
    rw [List.append_assoc, take_before, take_before]

/-- Whether no letter of a keyword is a quote. -/
def isUnquoted (w : String) : Bool :=
  w.toList.all fun c => !opensQuote c

/-- A quoted identifier is read up to its quote, unless it is empty. -/
theorem read_quotedName {w : List Char} (hw : '"' ∉ w) (rest : List Char) :
    quotedName.read ('"' :: (w ++ '"' :: rest)) = if w = [] then [] else [(w, rest)] := by
  cases w with
  | nil => simp [quotedName, Phrase.char, run1, oneOf]
  | cons c w =>
    rw [List.mem_cons, not_or] at hw
    have hc : c ≠ '"' := fun h => hw.1 h.symm
    have hrun : ∀ x ∈ w, (x != '"') = true := by
      intro x hx
      rw [bne_iff_ne]
      rintro rfl
      exact hw.2 hx
    have hstop : ∀ x ∈ ('"' :: rest).head?, (x != '"') = false := by
      rintro x ⟨⟩
      rfl
    simp [quotedName, Phrase.char, run1, oneOf, run, hc, takeWhile_append_of_stop hrun hstop,
      dropWhile_append_of_stop hrun hstop]

/-- A character that begins an identifier may stand in one. -/
theorem isNameChar_of_isNameStart (h : isNameStart c) : isNameChar c := by
  refine isNameChar_of_isPlain ?_
  rcases Bool.or_eq_true_iff.1 h with h | h
  · exact isPlain_of_isAlpha h
  · rw [beq_iff_eq.1 h]
    rfl

/-- A character that begins an identifier when case is ignored may stand in one. -/
theorem isNameChar_of_isFoldedNameStart (h : isFoldedNameStart c) : isNameChar c := by
  rw [isFoldedNameStart, foldCase] at h
  split at h
  · next hc => rw [hc]; decide +kernel
  split at h
  · next hc => rw [hc]; decide +kernel
  refine isNameChar_of_isNameStart ?_
  by_cases hupper : c.isUpper
  · simp [isNameStart, Char.isAlpha, hupper]
  · rwa [Char.toLower_eq_of_not_isUpper hupper] at h

variable (he : e = '\'' ∨ e = '$')

include he

/-- A phrase that reads one symbol, and no quote. -/
theorem steady_first {g : Char → Option β} (hg : ∀ c, opensQuote c → g c = none)
    (hp : ∀ c s, p.read (c :: s) = ((g c).map fun b => (b, s)).toList) : Steady e p := by
  intro ps hps
  rcases hps.start_cases he with ⟨c, qs, rfl⟩ | ⟨q, hq, hstart⟩
  · refine ⟨((g c).map fun b => (b, qs)).toList, fun r hr => ?_, fun z => ?_⟩
    · obtain ⟨b, -, rfl⟩ := Option.map_eq_some_iff.1 (Option.mem_toList.1 hr)
      exact List.suffix_cons _ _
    · rw [List.flatMap_cons, Piece.text, List.append_assoc, List.singleton_append, hp]
      cases g c <;> rfl
  · refine ⟨[], by simp, fun z => ?_⟩
    obtain ⟨t, ht⟩ := hstart z
    rw [ht, hp, hg q hq]
    rfl

/-- One character of a class without quotes is steady. -/
theorem steady_oneOf {ok : Char → Bool} (hok : ∀ c, opensQuote c → ok c = false) :
    Steady e (oneOf ok) := by
  refine steady_first he (g := fun c => if ok c then some c else none) (fun c hc => ?_)
    fun c s => ?_
  · rw [hok c hc]
    rfl
  · simp only [oneOf]
    split <;> rfl

/-- A character that begins no literal is steady. -/
theorem steady_char (hc : opensQuote c = false) : Steady e (char c) := by
  refine steady_first he (g := fun x => if x = c then some () else none) (fun x hx => ?_)
    fun x s => ?_
  · rw [if_neg]
    rintro rfl
    rw [hx] at hc
    cases hc
  · simp only [Phrase.char]
    split <;> rfl

/-- A run of characters of a class without quotes is steady. -/
theorem steady_run {ok : Char → Bool} (hok : ∀ c, opensQuote c → ok c = false) :
    Steady e (run ok) := by
  intro ps hps
  have hdollar : ok '$' = false := hok '$' rfl
  obtain ⟨w, qs, hqs, hw⟩ := hps.exists_run ok he ⟨hok '\'' rfl, hok '"' rfl⟩ fun h => by
    rw [hdollar] at h
    cases h
  exact ⟨[(w, qs)], by simpa using hqs, fun z => by simp [run, hw z, resume]⟩

/-- A run of at least one character of a class without quotes is steady. -/
theorem steady_run1 {ok : Char → Bool} (hok : ∀ c, opensQuote c → ok c = false) :
    Steady e (run1 ok) :=
  (steady_oneOf he hok).bind fun _ => (steady_run he hok).bind fun _ => steady_pure _

/-- Blanks are steady. -/
theorem steady_blanks : Steady e blanks :=
  (steady_run he fun _ => isBlank_of_opensQuote).bind fun _ => steady_pure _

/-- Blanks that have to be there are steady. -/
theorem steady_blanks1 : Steady e blanks1 :=
  (steady_run1 he fun _ => isBlank_of_opensQuote).bind fun _ => steady_pure _

/-- A keyword is steady. -/
theorem steady_keyword {w : String} (hw : isUnquoted w) : Steady e (keyword w) := by
  rw [keyword]
  rw [isUnquoted] at hw
  generalize w.toList = cs at hw
  induction cs with
  | nil => exact steady_pure ()
  | cons c cs ih =>
    rw [List.all_cons, Bool.and_eq_true] at hw
    refine (steady_oneOf he fun x hx => ?_).bind fun _ => ih hw.2
    rw [foldCase_of_opensQuote hx, beq_eq_false_iff_ne]
    rintro rfl
    simp [hx] at hw

/-- Keywords one after another are steady. -/
theorem steady_keywords {ws : List String} (hws : ws.all isUnquoted) : Steady e (keywords ws) := by
  induction ws with
  | nil => exact steady_pure ()
  | cons w ws ih =>
    rw [List.all_cons, Bool.and_eq_true] at hws
    exact (steady_keyword he hws.1).bind fun _ => (steady_blanks1 he).bind fun _ => ih hws.2

/-- A plain identifier is steady: before clear pieces it never reaches a dollar quote. -/
theorem steady_plainName {start : Char → Bool} (hquote : ∀ c, opensQuote c → start c = false)
    (hstart : ∀ c, start c → isNameChar c) : Steady e (plainName start) := by
  intro ps hps
  rcases hps.start_cases he with ⟨c, qs, rfl⟩ | ⟨q, hq, hhead⟩
  · cases hc : start c with
    | false => exact ⟨[], by simp, fun z => by simp [plainName, oneOf, Piece.text, hc]⟩
    | true =>
      obtain ⟨hqs, ⟨c', heq, -, hglue⟩ | ⟨q, s, heq, -⟩⟩ := hps.cons_cases
      · obtain ⟨rfl⟩ := heq
        obtain ⟨w, rs, hrs, hw⟩ := hqs.exists_run isNameChar he ⟨by decide, by decide⟩
          fun _ => ⟨fun _ => id, hglue (hstart c hc)⟩
        refine ⟨[(c :: w, rs)], by simpa using hrs.trans (List.suffix_cons _ _), fun z => ?_⟩
        simp [plainName, oneOf, run, Piece.text, hc, hw z, resume]
      · cases heq
  · refine ⟨[], by simp, fun z => ?_⟩
    obtain ⟨t, ht⟩ := hhead z
    rw [ht]
    simp [plainName, oneOf, hquote q hq]

/-- A quoted identifier is steady, since it is a whole literal to the scan. -/
theorem steady_quotedName : Steady e quotedName := by
  intro ps hps
  cases ps with
  | nil =>
    refine ⟨[], by simp, fun z => ?_⟩
    rcases he with rfl | rfl <;> simp [quotedName, Phrase.char]
  | cons a ps =>
    obtain ⟨-, ⟨c, rfl, -⟩ | ⟨q, s, rfl, -, hs⟩⟩ := hps.cons_cases
    · have hc := hps.not_quote.2
      exact ⟨[], by simp, fun z => by simp [quotedName, Phrase.char, Piece.text, hc]⟩
    · by_cases hq : q = '"'
      · subst hq
        have hend : throughQuote '"' (s ++ [' ']) = s := by
          have := hs [' ']
          simpa [literal?] using this
        obtain ⟨w, rfl, hw⟩ := exists_of_throughQuote hend (by simp)
        refine ⟨if w = [] then [] else [(w, ps)], ?_, fun z => ?_⟩
        · split <;> simp
        · have hread := read_quotedName hw (ps.flatMap Piece.text ++ e :: z)
          rw [List.flatMap_cons, Piece.text]
          simp only [List.cons_append, List.append_assoc, List.nil_append, hread]
          split <;> rfl
      · exact ⟨[], by simp, fun z => by simp [quotedName, Phrase.char, Piece.text, hq]⟩

/-- An identifier is steady, plain or quoted. -/
theorem steady_identifier {start : Char → Bool} (hquote : ∀ c, opensQuote c → start c = false)
    (hstart : ∀ c, start c → isNameChar c) : Steady e (identifier start) :=
  ((steady_quotedName he).bind fun _ => steady_pure _).either
    ((steady_plainName he hquote hstart).bind fun _ => steady_pure _)

/-- An identifier with case ignored is steady. -/
theorem steady_foldedIdentifier : Steady e (identifier isFoldedNameStart) := by
  refine steady_identifier he (fun c hc => ?_) fun _ => isNameChar_of_isFoldedNameStart
  rcases opensQuote_cases hc with rfl | rfl | rfl <;> decide

/-- A segment of a name is steady. -/
theorem steady_segment : Steady e segment :=
  (steady_foldedIdentifier he).spelled

/-- A name is steady, with or without a dot in it. -/
theorem steady_qualifiedName : Steady e qualifiedName :=
  ((steady_segment he).bind fun _ => Steady.optional <|
    (steady_blanks he).bind fun _ => (steady_char he (by decide)).bind fun _ =>
      (steady_blanks he).bind fun _ => steady_segment he).spelled

/-! ## Heads, clauses and actions -/

/-- A column in parentheses is steady. -/
theorem steady_parenthesized : Steady e parenthesized :=
  (steady_char he (by decide)).bind fun _ =>
  (steady_blanks he).bind fun _ =>
  (steady_segment he).bind fun _ =>
  (steady_blanks he).bind fun _ =>
  (steady_char he (by decide)).bind fun _ => steady_pure _

/-- A reference is steady. -/
theorem steady_referencesClause : Steady e referencesClause :=
  (steady_keywords he (by decide)).bind fun _ =>
  (steady_qualifiedName he).bind fun _ =>
  (steady_blanks he).bind fun _ =>
  (steady_parenthesized he).bind fun _ => steady_pure _

end SchemaDrift.Migration
