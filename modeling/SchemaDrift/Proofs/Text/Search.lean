import SchemaDrift.Proofs.Migration.Words

/-!
# Readings and searches

What a reading of a phrase says about the text it was read off (`mem_read_bind` and the lemmas next
to it), and how a search goes over a text: it passes over a part where the phrase is refused at
every place (`search_refused`) and resumes behind a part that the phrase is read off
(`search_found`). What it finds is read off the text where it starts (`exists_of_mem_search`). A
phrase that is refused inside all that it reads is found wherever it is read
(`ReadsApart.exists_mem_search`).

`PlainName` is a name of ASCII letters, digits and underscores, as the generated texts of types and
queries are made of.
-/

namespace SchemaDrift.Text

open Migration Phrase

variable {β γ : Type} {s w rest : List Char}

/-! ## Readings -/

/-- A reading of two phrases one after the other is one of the second behind one of the first. -/
theorem mem_read_bind {p : Phrase β} {f : β → Phrase γ} {r : γ × List Char} :
    r ∈ (p >>= f).read s ↔ ∃ a ∈ p.read s, r ∈ (f a.1).read a.2 :=
  List.mem_flatMap

/-- The phrase that covers nothing has one reading. -/
theorem mem_read_pure {b : β} {r : β × List Char} :
    r ∈ (pure b : Phrase β).read s ↔ r = (b, s) :=
  List.mem_singleton

/-- A reading of either phrase is one of the first or of the second. -/
theorem mem_read_either {p q : Phrase β} {r : β × List Char} :
    r ∈ (either p q).read s ↔ r ∈ p.read s ∨ r ∈ q.read s :=
  List.mem_append

/-- What is read as a character of a class is the first character of the text. -/
theorem eq_cons_of_mem_read_oneOf {ok : Char → Bool} {r : Char × List Char}
    (h : r ∈ (oneOf ok).read s) : ok r.1 ∧ s = r.1 :: r.2 := by
  cases s with
  | nil => cases h
  | cons c s =>
    simp only [oneOf] at h
    split at h
    · next hc =>
      obtain rfl := List.mem_singleton.1 h
      exact ⟨hc, rfl⟩
    · cases h

/-- What is read as a given character is the first one of the text. -/
theorem eq_cons_of_mem_read_char {c : Char} {r : Unit × List Char} (h : r ∈ (char c).read s) :
    s = c :: r.2 := by
  cases s with
  | nil => cases h
  | cons x s =>
    simp only [Phrase.char] at h
    split at h
    · next hx =>
      obtain rfl := List.mem_singleton.1 h
      rw [hx]
    · cases h

/-- What is read as a run is a beginning of the text, of characters of the class. -/
theorem eq_append_of_mem_read_run {ok : Char → Bool} {r : List Char × List Char}
    (h : r ∈ (run ok).read s) : (∀ c ∈ r.1, ok c) ∧ s = r.1 ++ r.2 := by
  obtain rfl := List.mem_singleton.1 h
  exact ⟨fun c hc => List.mem_takeWhile_imp hc, List.takeWhile_append_dropWhile.symm⟩

/-- What is read as a run of at least one is a beginning of the text, of characters of the class. -/
theorem eq_append_of_mem_read_run1 {ok : Char → Bool} {r : List Char × List Char}
    (h : r ∈ (run1 ok).read s) : (∀ c ∈ r.1, ok c) ∧ s = r.1 ++ r.2 := by
  obtain ⟨a, ha, h⟩ := mem_read_bind.1 h
  obtain ⟨b, hb, h⟩ := mem_read_bind.1 h
  obtain rfl := mem_read_pure.1 h
  obtain ⟨hok, rfl⟩ := eq_cons_of_mem_read_oneOf ha
  obtain ⟨hall, hrest⟩ := eq_append_of_mem_read_run hb
  exact ⟨List.forall_mem_cons.2 ⟨hok, hall⟩, congrArg (a.1 :: ·) hrest⟩

/-- What is read as blanks is a beginning of the text, of blanks. -/
theorem eq_append_of_mem_read_blanks {r : Unit × List Char} (h : r ∈ blanks.read s) :
    ∃ b, (∀ c ∈ b, isBlank c) ∧ s = b ++ r.2 := by
  obtain ⟨a, ha, h⟩ := mem_read_bind.1 h
  obtain rfl := mem_read_pure.1 h
  exact ⟨a.1, eq_append_of_mem_read_run ha⟩

/-- What is read as a given text is a beginning of the text. -/
theorem eq_append_of_mem_read_exactly {r : Unit × List Char} (h : r ∈ (exactly w).read s) :
    s = w ++ r.2 := by
  induction w generalizing s with
  | nil => rw [mem_read_pure.1 h]; rfl
  | cons c w ih =>
    obtain ⟨a, ha, h⟩ := mem_read_bind.1 h
    rw [eq_cons_of_mem_read_char ha, ih h, List.cons_append]

/-- Blanks are read up to the first character that is not blank. -/
theorem read_blanks_of_stop {b : List Char} (hb : ∀ c ∈ b, isBlank c)
    (hs : ∀ c ∈ s.head?, isBlank c = false) : blanks.read (b ++ s) = [((), s)] := by
  simp [blanks, run, dropWhile_append_of_stop hb hs]

/-- A given text is read in one way off a text that begins with it. -/
theorem read_exactly_append (w s : List Char) : (exactly w).read (w ++ s) = [((), s)] := by
  induction w with
  | nil => rfl
  | cons c w ih => simpa [exactly, Phrase.char] using ih

/-! ## Searches -/

variable {p : Option Char → Phrase β}

/-- A search passes over a part of a text where the phrase is refused at every place. -/
theorem search_refused (i : Nat) (before : Option Char)
    (h : ∀ x, x ≠ [] → x <:+ w → ∀ b, (p b).read (x ++ rest) = []) :
    search p 0 i before (w ++ rest) =
      search p 0 (i + w.length) (w.getLast?.or before) rest := by
  induction w generalizing i before with
  | nil => rfl
  | cons c w ih =>
    have hhead : (p before).best? (c :: (w ++ rest)) = none := by
      have hnil := h (c :: w) (List.cons_ne_nil c w) List.suffix_rfl before
      rw [List.cons_append] at hnil
      rw [best?, hnil]
      rfl
    have htail : ∀ x, x ≠ [] → x <:+ w → ∀ b, (p b).read (x ++ rest) = [] :=
      fun x hne hx => h x hne (hx.trans (List.suffix_cons c w))
    rw [List.cons_append, search, hhead]
    show search p 0 (i + 1) (some c) (w ++ rest) = _
    rw [ih (i + 1) (some c) htail, List.length_cons, List.getLast?_cons]
    cases w.getLast? <;> simp [Nat.add_assoc, Nat.add_comm 1]

/-- A search finds what is read off a part of a text and resumes behind it. -/
theorem search_found (i : Nat) {before : Option Char} {b : β} (hw : w ≠ [])
    (h : (p before).best? (w ++ rest) = some (b, rest)) :
    search p 0 i before (w ++ rest) = ⟨i, i + w.length, b, rest⟩ ::
      search p 0 (i + w.length) (w.getLast?.or before) rest := by
  obtain ⟨c, w, rfl⟩ := List.exists_cons_of_ne_nil hw
  have hsize : (c :: (w ++ rest)).length - rest.length = w.length + 1 := by
    simp only [List.length_cons, List.length_append]
    omega
  rw [List.cons_append] at h
  rw [List.cons_append, search, h]
  show (⟨i, i + ((c :: (w ++ rest)).length - rest.length), b, rest⟩ : Occurrence β) ::
    search p ((c :: (w ++ rest)).length - rest.length - 1) (i + 1) (some c) (w ++ rest) = _
  rw [hsize, Nat.add_sub_cancel, search_skip, List.length_cons, List.getLast?_cons]
  cases w.getLast? <;> simp [Nat.add_assoc, Nat.add_comm 1]

/-- What a search finds is read off the text where it starts, given the symbol before it. -/
theorem exists_of_mem_search {skip i : Nat} {before : Option Char} {o : Occurrence β}
    (h : o ∈ search p skip i before s) : ∃ u v, s = u ++ v ∧ o.start = i + u.length ∧
      (p (u.getLast?.or before)).best? v = some (o.value, o.rest) ∧
      o.stop = o.start + (v.length - o.rest.length) := by
  induction s generalizing skip i before with
  | nil => cases skip <;> cases h
  | cons c s ih =>
    have hlater : ∀ {skip}, o ∈ search p skip (i + 1) (some c) s →
        ∃ u v, c :: s = u ++ v ∧ o.start = i + u.length ∧
          (p (u.getLast?.or before)).best? v = some (o.value, o.rest) ∧
          o.stop = o.start + (v.length - o.rest.length) := by
      intro skip h
      obtain ⟨u, v, rfl, hstart, hread, hstop⟩ := ih h
      refine ⟨c :: u, v, rfl, by rw [hstart, List.length_cons]; omega, ?_, hstop⟩
      rw [List.getLast?_cons]
      cases hu : u.getLast? <;> simpa [hu] using hread
    cases skip with
    | succ skip => exact hlater h
    | zero =>
      rw [search] at h
      split at h
      · exact hlater h
      · next b rest hread =>
        rcases List.mem_cons.1 h with rfl | h
        · exact ⟨[], c :: s, rfl, rfl, hread, rfl⟩
        · exact hlater h

/-- What a search finds stands in the order of the text. -/
theorem pairwise_start_search (skip i : Nat) (before : Option Char) (s : List Char) :
    (search p skip i before s).Pairwise fun o o' => o.start < o'.start := by
  induction s generalizing skip i before with
  | nil => cases skip <;> exact .nil
  | cons c s ih =>
    cases skip with
    | succ skip => exact ih skip (i + 1) (some c)
    | zero =>
      rw [search]
      split
      · exact ih 0 (i + 1) (some c)
      · refine List.pairwise_cons.2 ⟨fun o ho => ?_, ih _ _ _⟩
        obtain ⟨u, v, -, hstart, -⟩ := exists_of_mem_search ho
        show i < o.start
        omega

/-- A phrase that a search finds nowhere is read nowhere. -/
theorem best?_eq_none_of_search {i : Nat} {before : Option Char} {u v : List Char} (hv : v ≠ [])
    (h : search p 0 i before (u ++ v) = []) : (p (u.getLast?.or before)).best? v = none := by
  induction u generalizing i before with
  | nil =>
    obtain ⟨c, v, rfl⟩ := List.exists_cons_of_ne_nil hv
    rw [List.nil_append, search] at h
    split at h
    · next hread => exact hread
    · cases h
  | cons c u ih =>
    rw [List.cons_append, search] at h
    split at h
    · have hlater := ih h
      rw [List.getLast?_cons]
      cases hu : u.getLast? <;> simpa [hu] using hlater
    · cases h

/-- A phrase that is read at the start of a word is read where no word goes on. -/
theorem exists_of_best?_atWordStart {q : Phrase β} {before : Option Char} {r : β × List Char}
    (h : (atWordStart q before).best? s = some r) : before.any isWord = false ∧ r ∈ q.read s := by
  unfold atWordStart at h
  split at h
  · cases h
  · next hword => exact ⟨Bool.eq_false_iff.2 hword, List.mem_of_head? h⟩

/-! ## Phrases that are read apart -/

/-- A phrase is read apart if it reads something, and is refused at every place inside what it
reads. -/
def ReadsApart (p : Phrase β) : Prop :=
  ∀ s b rest, p.best? s = some (b, rest) →
    ∃ c w, s = c :: (w ++ rest) ∧ ∀ x, x ≠ [] → x <:+ w → p.best? (x ++ rest) = none

/-- A search finds what is read behind a place where nothing else is read, skipped symbols
included. -/
theorem ReadsApart.exists_mem_search_of_skip {p : Phrase β} (hp : ReadsApart p) {u v : List Char}
    {b : β} (hv : p.best? v = some (b, rest)) {skip : Nat}
    (hskip : ∀ n < skip, p.best? ((u ++ v).drop n) = none) (i : Nat) (before : Option Char) :
    ∃ o ∈ search (fun _ => p) skip i before (u ++ v), o.start = i + u.length ∧ o.value = b := by
  induction u generalizing skip i before with
  | nil =>
    cases skip with
    | succ skip =>
      have hnone := hskip 0 (Nat.succ_pos skip)
      rw [List.nil_append, List.drop_zero, hv] at hnone
      cases hnone
    | zero =>
      obtain ⟨c, w, rfl, -⟩ := hp v b rest hv
      rw [List.nil_append, search, hv]
      exact ⟨_, List.mem_cons_self, rfl, rfl⟩
  | cons c u ih =>
    have hlength : i + (c :: u).length = i + 1 + u.length := by
      rw [List.length_cons]
      omega
    rw [hlength]
    cases skip with
    | succ skip => exact ih (fun n hn => hskip (n + 1) (Nat.succ_lt_succ hn)) (i + 1) (some c)
    | zero =>
      rw [List.cons_append, search]
      split
      · exact ih (fun n hn => absurd hn (Nat.not_lt_zero n)) (i + 1) (some c)
      · next b' rest' hread =>
        obtain ⟨c', w, hs, hinside⟩ := hp _ b' rest' hread
        obtain ⟨rfl, huv⟩ := List.cons_eq_cons.1 hs
        have hsize : (c :: (u ++ v)).length - rest'.length - 1 = w.length := by
          rw [huv, List.length_cons, List.length_append]
          omega
        -- Up to where the search resumes, nothing is read.
        have hnone : ∀ n < w.length, p.best? ((u ++ v).drop n) = none := by
          intro n hn
          rw [huv, List.drop_append_of_le_length (Nat.le_of_lt hn)]
          exact hinside _ (List.ne_nil_of_length_pos (by rw [List.length_drop]; omega))
            (List.drop_suffix n w)
        obtain ⟨o, ho, hfound⟩ := ih hnone (i + 1) (some c)
        rw [← hsize] at ho
        exact ⟨o, List.mem_cons_of_mem _ ho, hfound⟩

/-- A search finds a phrase that is read apart at every place where it is read. -/
theorem ReadsApart.exists_mem_search {p : Phrase β} (hp : ReadsApart p) {v : List Char} {b : β}
    (hv : p.best? v = some (b, rest)) (i : Nat) (before : Option Char) (u : List Char) :
    ∃ o ∈ search (fun _ => p) 0 i before (u ++ v), o.start = i + u.length ∧ o.value = b :=
  hp.exists_mem_search_of_skip hv (fun n hn => absurd hn (Nat.not_lt_zero n)) i before

end SchemaDrift.Text
