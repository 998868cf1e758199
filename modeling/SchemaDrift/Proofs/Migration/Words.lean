import Mathlib
import SchemaDrift.Migration.Statement
import SchemaDrift.Proofs.Scan.Nested
import SchemaDrift.Proofs.Text.Runs

/-!
# Words of a migration and the phrases they open

A text made of plain words and punctuation is read word by word. A phrase that opens with a keyword
refuses every other word (`Opens.read_word`), so a search for it passes over a text that avoids the
keyword (`Opens.passes_worded`) and resumes behind each place where the phrase is read
(`Opens.hits_phrase`).
-/

namespace SchemaDrift.Migration

open SchemaDrift.Text Phrase

/-! ## Plain characters and punctuation -/

/-- Whether a character is an ASCII letter or digit or an underscore. -/
def isPlain (c : Char) : Bool :=
  c.isAlphanum || c == '_'

/-- The characters that stand between words. -/
def punctuation : List Char :=
  [' ', '\n', '(', ')', ',', ';']

/-- Whether a character is one of those that stand between words. -/
def isPunctuation (c : Char) : Bool :=
  punctuation.contains c

/-- A text that goes on with punctuation, if it goes on. -/
def Stops (s : List Char) : Prop :=
  ∀ c ∈ s.head?, isPunctuation c

/-- The plain characters by their codes: letters, digits and the underscore of ASCII. -/
theorem isPlain_iff_toNat {c : Char} :
    isPlain c ↔ 65 ≤ c.toNat ∧ c.toNat ≤ 90 ∨ 97 ≤ c.toNat ∧ c.toNat ≤ 122 ∨
      48 ≤ c.toNat ∧ c.toNat ≤ 57 ∨ c.toNat = 95 := by
  have hunderscore : c = '_' ↔ c.toNat = 95 := Char.toNat_inj.symm
  simp [isPlain, Char.isAlphanum, Char.isAlpha, Char.isUpper, Char.isLower, Char.isDigit,
    UInt32.le_iff_toNat_le, hunderscore, or_assoc]

/-- A plain character belongs to words. -/
theorem isWord_of_isPlain {c : Char} (h : isPlain c) : isWord c := by
  have := isPlain_iff_toNat.1 h
  rw [isWord, if_pos (by omega)]
  exact h

/-- A plain character is not blank. -/
theorem isBlank_of_isPlain {c : Char} (h : isPlain c) : isBlank c = false := by
  have := isPlain_iff_toNat.1 h
  simp only [isBlank, blankRanges, List.any_cons, List.any_nil]
  grind

/-- Ignoring case, a plain character is its lowercase form. -/
theorem foldCase_of_isPlain {c : Char} (h : isPlain c) : foldCase c = c.toLower := by
  have := isPlain_iff_toNat.1 h
  have hs : c ≠ 'ſ' := by rintro rfl; revert this; decide
  have hk : c ≠ 'K' := by rintro rfl; revert this; decide
  rw [foldCase, if_neg hs, if_neg hk]

/-- A plain character may stand in a name. -/
theorem isNameChar_of_isPlain {c : Char} (h : isPlain c) : isNameChar c := by
  simp [isNameChar, isWord_of_isPlain h]

/-- What holds of a character holds of the head of a text that begins with it. -/
theorem forall_head?_cons {q : Char → Prop} {c : Char} (hc : q c) (s : List Char) :
    ∀ d ∈ (c :: s).head?, q d := by
  rintro _ ⟨⟩
  exact hc

/-- A text that begins with punctuation stops. -/
theorem stops_cons {c : Char} (hc : isPunctuation c) (s : List Char) : Stops (c :: s) :=
  forall_head?_cons hc s

/-- If no character of a text passes a test, each of them fails it. -/
theorem eq_false_of_any {q : Char → Bool} {s : List Char} (h : s.any q = false) :
    ∀ c ∈ s, q c = false := by
  simpa using h

/-- Punctuation fails every test that its list fails. -/
theorem eq_false_of_isPunctuation {q : Char → Bool} (hq : punctuation.any q = false) {c : Char}
    (hc : isPunctuation c) : q c = false :=
  eq_false_of_any hq c (List.contains_iff_mem.1 hc)

/-- Punctuation belongs to no word. -/
theorem isWord_of_isPunctuation {c : Char} (hc : isPunctuation c) : isWord c = false :=
  eq_false_of_isPunctuation (by decide) hc

/-- Punctuation belongs to no name. -/
theorem isNameChar_of_isPunctuation {c : Char} (hc : isPunctuation c) : isNameChar c = false :=
  eq_false_of_isPunctuation (by decide) hc

/-- Punctuation is not plain, with case ignored either. -/
theorem isPlain_foldCase_of_isPunctuation {c : Char} (hc : isPunctuation c) :
    isPlain (foldCase c) = false :=
  eq_false_of_isPunctuation (q := isPlain ∘ foldCase) (by decide) hc

/-- A character of a class differs from those outside of it. -/
theorem ne_of_class {q : Char → Bool} {c d : Char} (hc : q c) (hd : q d = false) : c ≠ d := by
  rintro rfl
  rw [hc] at hd
  cases hd

/-- A plain character is not among characters of which none is plain. -/
theorem not_mem_of_isPlain {c : Char} {ds : List Char} (h : isPlain c)
    (hds : ds.any isPlain = false) : c ∉ ds :=
  fun hmem => by simp [eq_false_of_any hds c hmem] at h

/-- A plain character has no meaning to the scan. -/
theorem isOrdinary_of_isPlain {c : Char} (h : isPlain c) : Scan.isOrdinary c := by
  have hstart : c ∉ ['\'', '"', '$', '-', '/'] := not_mem_of_isPlain h (by decide)
  have hbracket : c ∉ ['(', ')', '[', ']', '{', '}'] := not_mem_of_isPlain h (by decide)
  simp [Scan.isOrdinary, Scan.isInert, hstart, hbracket]

/-- A word of plain characters begins and ends with characters that are not blank. -/
theorem tight_of_plain {w : List Char} (h : ∀ c ∈ w, isPlain c) (hne : w ≠ []) : Tight w := by
  have hblank : ∀ c ∈ w, isBlank c = false := fun c hc => isBlank_of_isPlain (h c hc)
  refine ⟨⟨w.head hne, List.head?_eq_some_head hne, hblank _ (List.head_mem hne)⟩, ?_⟩
  exact ⟨w.getLast hne, List.getLast?_eq_some_getLast hne, hblank _ (List.getLast_mem hne)⟩

/-! ## Letters and digits -/

/-- A letter of ASCII is plain. -/
theorem isPlain_of_isAlpha {c : Char} (h : c.isAlpha) : isPlain c := by
  simp [isPlain, Char.isAlphanum, h]

/-- A lowercase letter is a letter. -/
theorem isAlpha_of_isLower {c : Char} (h : c.isLower) : c.isAlpha := by
  simp [Char.isAlpha, h]

/-- A lowercase letter is the lowercase form of its uppercase form. -/
theorem toLower_toUpper_of_isLower {c : Char} (h : c.isLower) : c.toUpper.toLower = c := by
  rw [Char.toLower_toUpper_eq_toLower]
  exact Char.toLower_eq_of_not_isUpper (Char.not_isUpper_of_isLower h)

/-- A digit is plain. -/
theorem isPlain_of_isDigit {c : Char} (h : c.isDigit) : isPlain c := by
  simp [isPlain, Char.isAlphanum, h]

/-- A digit is not a letter. -/
theorem isAlpha_of_isDigit {c : Char} (h : c.isDigit) : c.isAlpha = false := by
  simp [Char.isDigit, Char.isAlpha, Char.isUpper, Char.isLower, UInt32.le_iff_toNat_le] at h ⊢
  omega

/-- A digit has no case. -/
theorem toLower_of_isDigit {c : Char} (h : c.isDigit) : c.toLower = c := by
  have hupper : ¬c.isUpper := by
    have halpha := isAlpha_of_isDigit h
    simp only [Char.isAlpha, Bool.or_eq_false_iff] at halpha
    simp [halpha]
  exact Char.toLower_eq_of_not_isUpper hupper

/-! ## Keywords -/

/-- Ignoring case, a word of plain characters is its lowercase form. -/
theorem map_foldCase_of_plain {w : List Char} (h : ∀ c ∈ w, isPlain c) :
    w.map foldCase = w.map Char.toLower :=
  List.map_congr_left fun c hc => foldCase_of_isPlain (h c hc)

/-- The words with a meaning of their own in a migration. -/
def reservedWords : List String :=
  ["create", "or", "replace", "global", "local", "temp", "temporary", "unlogged", "table", "if",
   "not", "exists", "alter", "only", "drop", "references", "foreign", "key", "add", "column",
   "primary", "unique", "check", "constraint", "index", "exclude", "like"]

/-- Reserved words are made of small letters. -/
theorem letters_of_mem_reservedWords :
    ∀ w ∈ reservedWords, w.toList ≠ [] ∧ w.toList.all Char.isLower := by
  decide

/-- A reserved word. -/
structure Keyword where
  word : String
  reserved : word ∈ reservedWords
deriving DecidableEq

namespace Keyword

def create : Keyword := ⟨"create", by decide⟩
def alter : Keyword := ⟨"alter", by decide⟩
def drop : Keyword := ⟨"drop", by decide⟩
def table : Keyword := ⟨"table", by decide⟩
def add : Keyword := ⟨"add", by decide⟩
def column : Keyword := ⟨"column", by decide⟩
def primary : Keyword := ⟨"primary", by decide⟩
def foreign : Keyword := ⟨"foreign", by decide⟩
def key : Keyword := ⟨"key", by decide⟩
def references : Keyword := ⟨"references", by decide⟩

/-- The keywords that say in which scope a table is created. -/
def scopes : List Keyword :=
  [⟨"global", by decide⟩, ⟨"local", by decide⟩]

/-- The keywords that say that a table is temporary. -/
def temporaries : List Keyword :=
  [⟨"temp", by decide⟩, ⟨"temporary", by decide⟩, ⟨"unlogged", by decide⟩]

/-- A keyword in capital letters. -/
def written (k : Keyword) : List Char :=
  k.word.toList.map Char.toUpper

/-- A keyword has a character. -/
theorem word_ne_nil (k : Keyword) : k.word.toList ≠ [] :=
  (letters_of_mem_reservedWords k.word k.reserved).1

/-- A keyword is kept in lowercase. -/
theorem isLower_word (k : Keyword) : ∀ c ∈ k.word.toList, c.isLower :=
  List.all_eq_true.1 (letters_of_mem_reservedWords k.word k.reserved).2

/-- A keyword is made of plain characters. -/
theorem plain_word (k : Keyword) : ∀ c ∈ k.word.toList, isPlain c :=
  fun c hc => isPlain_of_isAlpha (isAlpha_of_isLower (k.isLower_word c hc))

/-- A keyword is written with plain characters. -/
theorem plain_written (k : Keyword) : ∀ c ∈ k.written, isPlain c := by
  rintro _ hmem
  obtain ⟨c, hc, rfl⟩ := List.mem_map.1 hmem
  have hupper : c.toUpper.isAlpha := by
    rw [Char.isAlpha_toUpper_eq_isAlpha]
    exact isAlpha_of_isLower (k.isLower_word c hc)
  exact isPlain_of_isAlpha hupper

/-- A keyword is written with at least one character. -/
theorem written_ne_nil (k : Keyword) : k.written ≠ [] := by
  have hne := k.word_ne_nil
  simpa [written] using hne

/-- A written keyword is the keyword in lowercase. -/
theorem map_toLower_written (k : Keyword) : k.written.map Char.toLower = k.word.toList := by
  have hid : k.word.toList.map (Char.toLower ∘ Char.toUpper) = k.word.toList.map id :=
    List.map_congr_left fun c hc => toLower_toUpper_of_isLower (k.isLower_word c hc)
  rw [written, List.map_map, hid, List.map_id]

/-- Ignoring case, a written keyword is the keyword. -/
theorem map_foldCase_written (k : Keyword) : k.written.map foldCase = k.word.toList := by
  rw [map_foldCase_of_plain k.plain_written, k.map_toLower_written]

end Keyword

variable {β γ : Type} {p : Phrase β} {k : Keyword} {w s rest : List Char}

/-! ## Readings -/

/-- The phrase that covers nothing is read in one way. -/
@[simp] theorem read_pure (b : β) (s : List Char) : (pure b : Phrase β).read s = [(b, s)] :=
  rfl

/-- Phrases one after the other are read by reading the second one behind each reading of the
first. -/
@[simp] theorem read_bind (p : Phrase β) (f : β → Phrase γ) (s : List Char) :
    (p >>= f).read s = (p.read s).flatMap fun r => (f r.1).read r.2 :=
  rfl

/-- A part that cannot be read is absent. -/
theorem read_optional_of_nil (h : p.read s = []) : (optional p).read s = [(none, s)] := by
  change (p.read s).flatMap _ ++ _ = _
  rw [h]
  rfl

/-- One space is read as blanks that have to be there, where no other blank follows. -/
theorem read_blanks1 (h : ∀ c ∈ s.head?, isBlank c = false) :
    blanks1.read (' ' :: s) = [((), s)] := by
  have hd : s.dropWhile isBlank = s := dropWhile_append_of_stop (List.forall_mem_nil _) h
  simp [blanks1, run1, oneOf, run, isBlank_space, hd]

/-- Where no blank stands, blanks that have to be there are not read. -/
theorem read_blanks1_of_not_blank (h : ∀ c ∈ s.head?, isBlank c = false) :
    blanks1.read s = [] := by
  cases s with
  | nil => rfl
  | cons c s => simp [blanks1, run1, oneOf, h c rfl]

/-- A keyword is read off a word that spells it, whatever the case of its letters. -/
theorem read_keywordLetters_map (w s : List Char) :
    (keywordLetters (w.map foldCase)).read (w ++ s) = [((), s)] := by
  induction w with
  | nil => rfl
  | cons x w ih => simpa [keywordLetters, oneOf] using ih

/-- No blank follows a keyword that is read off a word with another spelling. -/
theorem blanks1_of_mem_keywordLetters {k : List Char} (hk : ∀ c ∈ k, isPlain c)
    (hw : ∀ c ∈ w, isPlain c) (hne : w.map foldCase ≠ k) (hr : Stops rest) :
    ∀ r ∈ (keywordLetters k).read (w ++ rest), blanks1.read r.2 = [] := by
  induction k generalizing w with
  | nil =>
    cases w with
    | nil => exact absurd rfl hne
    | cons x w =>
      rintro r hr
      obtain rfl := List.mem_singleton.1 hr
      exact read_blanks1_of_not_blank fun c hc => isBlank_of_isPlain (hw c (by simp_all))
  | cons c k ih =>
    rw [List.forall_mem_cons] at hk
    cases w with
    | nil =>
      cases rest with
      | nil => simp [keywordLetters, oneOf]
      | cons d rest =>
        have hd : foldCase d ≠ c := by
          rintro rfl
          simp [isPlain_foldCase_of_isPunctuation (hr d rfl)] at hk
        simp [keywordLetters, oneOf, hd]
    | cons x w =>
      rw [List.forall_mem_cons] at hw
      by_cases hx : foldCase x = c
      · have hne : w.map foldCase ≠ k := by simpa [hx] using hne
        simpa [keywordLetters, oneOf, hx] using ih hk.2 hw.2 hne
      · simp [keywordLetters, oneOf, hx]

/-- A written keyword is read in one way. -/
theorem read_keyword (k : Keyword) (rest : List Char) :
    (keyword k.word).read (k.written ++ rest) = [((), rest)] := by
  rw [keyword, ← k.map_foldCase_written]
  exact read_keywordLetters_map k.written rest

/-- The first of some keywords is read off the word that was written for it. -/
theorem read_keywords (k : Keyword) (ks : List String)
    (hr : ∀ c ∈ rest.head?, isBlank c = false) :
    (keywords (k.word :: ks)).read (k.written ++ ' ' :: rest) = (keywords ks).read rest := by
  simp [keywords, read_keyword, read_blanks1 hr]

/-- A plain word that is not the keyword, whatever the case of its letters. -/
def Avoids (k : Keyword) (w : List Char) : Prop :=
  (∀ c ∈ w, isPlain c) ∧ w.map foldCase ≠ k.word.toList

/-- A word other than the first of some keywords is refused, also one that begins like it. -/
theorem read_keywords_of_avoids (ks : List String) (hw : Avoids k w) (hr : Stops rest) :
    (keywords (k.word :: ks)).read (w ++ rest) = [] := by
  simp only [keywords, keyword, read_bind, List.flatMap_eq_nil_iff]
  intro r hmem
  simp [blanks1_of_mem_keywordLetters k.plain_word hw.1 hw.2 hr r hmem]

/-- A word other than several keywords is refused where one of them is asked for. -/
theorem read_keywordOf_of_avoids (ks : List Keyword) (hw : ∀ k ∈ ks, Avoids k w) (hr : Stops rest) :
    (do keywordOf (ks.map Keyword.word); blanks1 : Phrase Unit).read (w ++ rest) = [] := by
  rw [read_bind, List.flatMap_eq_nil_iff]
  intro r hmem
  induction ks with
  | nil => cases hmem
  | cons k ks ih =>
    rw [List.forall_mem_cons] at hw
    rcases List.mem_append.1 hmem with hmem | hmem
    · exact blanks1_of_mem_keywordLetters k.plain_word hw.1.1 hw.1.2 hr r hmem
    · exact ih hw.2 hmem

/-! ## Phrases that open with a keyword -/

/-- A phrase whose first word is a keyword. -/
def Opens (k : Keyword) (p : Phrase β) : Prop :=
  ∃ ks f, p = keywords (k.word :: ks) >>= f

/-- A phrase that opens with a keyword is not read at a word that avoids it. -/
theorem Opens.read_word (hp : Opens k p) (hw : Avoids k w) (hr : Stops rest) :
    p.read (w ++ rest) = [] := by
  obtain ⟨ks, f, rfl⟩ := hp
  rw [read_bind, read_keywords_of_avoids ks hw hr]
  rfl

/-- A phrase that opens with a keyword is not read at punctuation. -/
theorem Opens.read_punctuation (hp : Opens k p) (hs : Stops s) : p.read s = [] :=
  hp.read_word (w := []) ⟨List.forall_mem_nil _, k.word_ne_nil.symm⟩ hs

/-! ## Searching -/

/-- The occurrences of a phrase at beginnings of words, in a text that begins at a position. -/
def hits (p : Phrase β) (i : Nat) (s : List Char) : List (Occurrence β) :=
  search (atWordStart p) 0 i none s

/-- A search that enters a text between words does not depend on what it has read before. -/
theorem Opens.search_eq_hits (hp : Opens k p) (i : Nat) {before : Option Char}
    (h : Stops s ∨ before.any isWord = false) :
    search (atWordStart p) 0 i before s = hits p i s := by
  cases s with
  | nil => rfl
  | cons c s =>
    have hbest : (atWordStart p before).best? (c :: s) = p.best? (c :: s) := by
      rcases h with h | h
      · have hnil := hp.read_punctuation h
        unfold atWordStart
        split <;> simp [best?, never, hnil]
      · simp [atWordStart, h]
    rw [hits, search, search, hbest]
    rfl

/-- A search skips the symbols that were read before. -/
theorem search_skip (q : Option Char → Phrase β) (i : Nat) (before : Option Char)
    (w rest : List Char) :
    search q w.length i before (w ++ rest) =
      search q 0 (i + w.length) (w.getLast?.or before) rest := by
  induction w generalizing i before with
  | nil => rfl
  | cons c w ih =>
    rw [List.length_cons, List.cons_append, search, ih, List.getLast?_cons]
    cases w.getLast? <;> simp [Nat.add_assoc, Nat.add_comm 1]

/-- Nothing is found inside a word. -/
theorem Opens.search_word (hp : Opens k p) (i : Nat) {x : Char} (hx : isWord x)
    (hw : ∀ c ∈ w, isPlain c) (hr : Stops rest) :
    search (atWordStart p) 0 i (some x) (w ++ rest) = hits p (i + w.length) rest := by
  induction w generalizing i x with
  | nil => exact hp.search_eq_hits i (.inl hr)
  | cons c w ih =>
    rw [List.forall_mem_cons] at hw
    have hstep : search (atWordStart p) 0 i (some x) (c :: (w ++ rest)) =
        search (atWordStart p) 0 (i + 1) (some c) (w ++ rest) := by
      simp [search, atWordStart, hx, best?, never]
    rw [List.cons_append, hstep, ih _ (isWord_of_isPlain hw.1) hw.2, List.length_cons]
    congr 1
    omega

/-- A word where the phrase cannot be read is passed over. -/
theorem Opens.hits_refused (hp : Opens k p) (i : Nat) (hw : ∀ c ∈ w, isPlain c) (hr : Stops rest)
    (hnil : p.read (w ++ rest) = []) : hits p i (w ++ rest) = hits p (i + w.length) rest := by
  cases w with
  | nil => rfl
  | cons c w =>
    have hstep : hits p i (c :: (w ++ rest)) =
        search (atWordStart p) 0 (i + 1) (some c) (w ++ rest) := by
      rw [List.cons_append] at hnil
      simp [hits, search, atWordStart, best?, hnil]
    rw [List.forall_mem_cons] at hw
    rw [List.cons_append, hstep, hp.search_word _ (isWord_of_isPlain hw.1) hw.2 hr,
      List.length_cons]
    congr 1
    omega

/-- A search for a phrase that opens with a keyword goes through punctuation. -/
theorem Opens.hits_punctuation (hp : Opens k p) (c : Char) (hc : isPunctuation c) (i : Nat)
    (s : List Char) : hits p i (c :: s) = hits p (i + 1) s := by
  have hnil : p.read (c :: s) = [] := hp.read_punctuation (stops_cons hc s)
  have hstep : hits p i (c :: s) = search (atWordStart p) 0 (i + 1) (some c) s := by
    simp [hits, search, atWordStart, best?, hnil]
  rw [hstep]
  exact hp.search_eq_hits _ (.inr (isWord_of_isPunctuation hc))

/-- A search for a phrase passes over a text, whatever follows it. -/
def Passes (p : Phrase β) (s : List Char) : Prop :=
  ∀ (i : Nat) (rest : List Char), Stops rest → hits p i (s ++ rest) = hits p (i + s.length) rest

/-- A search passes over a word that avoids the keyword of its phrase. -/
theorem Opens.passes_word (hp : Opens k p) (hw : Avoids k w) : Passes p w :=
  fun i _ hr => hp.hits_refused i hw.1 hr (hp.read_word hw hr)

/-- A search passes over two texts with punctuation between them if it passes over each. -/
theorem Opens.passes_append (hp : Opens k p) {t : List Char} {c : Char} (hs : Passes p s)
    (ht : Passes p t) (hc : isPunctuation c) : Passes p (s ++ c :: t) := by
  intro i rest hr
  rw [List.append_assoc, List.cons_append, hs i _ (stops_cons hc _), hp.hits_punctuation c hc,
    ht _ _ hr, List.length_append, List.length_cons]
  congr 1
  omega

/-- In a text that it passes over, a search finds nothing. -/
theorem Passes.hits_eq_nil (hs : Passes p s) (i : Nat) : hits p i s = [] := by
  have := hs i [] (by rintro _ ⟨⟩)
  rwa [List.append_nil] at this

/-- A text made of punctuation and of words with a property. Words may be empty, so punctuation
may follow punctuation. -/
inductive Worded (q : List Char → Prop) : List Char → Prop
  | word {w : List Char} : q w → Worded q w
  | cons {w s : List Char} {c : Char} (hw : q w) (hs : Worded q s)
      (hc : isPunctuation c) : Worded q (w ++ c :: s)

/-- Two texts made of words, with punctuation between them, are made of words. -/
theorem Worded.append {q : List Char → Prop} {s t : List Char} {c : Char} (hs : Worded q s)
    (ht : Worded q t) (hc : isPunctuation c) : Worded q (s ++ c :: t) := by
  induction hs with
  | word hw => exact .cons hw ht hc
  | cons hw _ hd ih =>
    rw [List.append_assoc, List.cons_append]
    exact .cons hw ih hd

/-- A text made of words of one kind is made of words of a wider kind. -/
theorem Worded.mono {q q' : List Char → Prop} (h : ∀ w, q w → q' w) (hs : Worded q s) :
    Worded q' s := by
  induction hs with
  | word hw => exact .word (h _ hw)
  | cons hw _ hc ih => exact .cons (h _ hw) ih hc

/-- A search for a phrase passes over a text that avoids its first word. -/
theorem Opens.passes_worded (hp : Opens k p) (hs : Worded (Avoids k) s) : Passes p s := by
  induction hs with
  | word hw => exact hp.passes_word hw
  | cons hw _ hc ih => exact hp.passes_append (hp.passes_word hw) ih hc

/-- A search resumes behind the place where the phrase is read. -/
theorem Opens.hits_phrase (hp : Opens k p) (i : Nat) {b : β} (hs : s ≠ [])
    (h : p.best? (s ++ rest) = some (b, rest))
    (hr : Stops rest ∨ ∀ c ∈ s.getLast?, isPunctuation c) :
    hits p i (s ++ rest) = ⟨i, i + s.length, b, rest⟩ :: hits p (i + s.length) rest := by
  obtain ⟨c, s, rfl⟩ := List.exists_cons_of_ne_nil hs
  have hstep : hits p i (c :: (s ++ rest)) = ⟨i, i + (s.length + 1), b, rest⟩ ::
      search (atWordStart p) s.length (i + 1) (some c) (s ++ rest) := by
    rw [List.cons_append] at h
    have hsize : s.length + rest.length + 1 - rest.length = s.length + 1 := by omega
    simp [hits, search, atWordStart, h, hsize]
  rw [List.cons_append, hstep, search_skip, List.length_cons, hp.search_eq_hits]
  · congr 2
    omega
  · refine hr.imp id fun hlast => ?_
    rw [List.getLast?_cons] at hlast
    cases hl : s.getLast? with
    | none => exact isWord_of_isPunctuation (hlast c (by simp [hl]))
    | some d => exact isWord_of_isPunctuation (hlast d (by simp [hl]))

end SchemaDrift.Migration

namespace SchemaDrift

open Migration

/-! ## Plain names -/

/-- Whether a character is an ASCII letter or an underscore. -/
def isPlainStart (c : Char) : Bool :=
  c.isAlpha || c == '_'

/-- A character that begins a plain name begins an identifier. -/
theorem isNameStart_of_isPlainStart {c : Char} (h : isPlainStart c) : isNameStart c :=
  h

/-- A name of ASCII letters, digits and underscores that does not begin with a digit. -/
structure PlainName where
  chars : List Char
  start : chars.head?.any isPlainStart
  allPlain : chars.all isPlain

namespace PlainName

variable (n : PlainName)

/-- A name as a text. -/
def text : String :=
  String.ofList n.chars

/-- A name is made of plain characters. -/
theorem plain : ∀ c ∈ n.chars, isPlain c :=
  List.all_eq_true.1 n.allPlain

/-- A name has a first character that may begin one, and plain characters behind it. -/
theorem exists_cons : ∃ c s, n.chars = c :: s ∧ isNameStart c ∧ isPlain c ∧ ∀ d ∈ s, isPlain d := by
  have hstart := n.start
  have hplain := n.plain
  cases hn : n.chars with
  | nil => simp [hn] at hstart
  | cons c s =>
    rw [hn] at hstart hplain
    rw [List.forall_mem_cons] at hplain
    exact ⟨c, s, rfl, isNameStart_of_isPlainStart hstart, hplain.1, hplain.2⟩

/-- A plain name may begin an identifier. -/
theorem head?_any_isNameStart : n.chars.head?.any isNameStart := by
  obtain ⟨c, s, hn, hstart, -⟩ := n.exists_cons
  rw [hn]
  exact hstart

/-- A name has a character. -/
theorem chars_ne_nil : n.chars ≠ [] := by
  obtain ⟨c, s, hn, -⟩ := n.exists_cons
  rw [hn]
  exact List.cons_ne_nil c s

/-- A plain name holds none of the characters that are not plain. -/
theorem not_mem {c : Char} (h : isPlain c = false) : c ∉ n.chars := by
  intro hc
  rw [n.plain c hc] at h
  cases h

end PlainName

end SchemaDrift
