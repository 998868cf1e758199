import Mathlib.Data.List.Infix
import SchemaDrift.Proofs.Wildcard.Escape
import SchemaDrift.Wildcard.Match

/-!
# What patterns accept

A row of answers lists what a test says of every suffix of a text (`answers`). Each token turns the
test for the tokens behind it into another: one for a single character asks the character and then
the rest (`tokenRow_literal`), and `*` asks every suffix (`tokenRow_anySequence`). So an escaped
text accepts that text and no other (`accepts_exactly_iff`), and a `*` before it accepts what ends
in the text (`accepts_ending_iff`).
-/

namespace SchemaDrift.Wildcard

/-- The answers of a test for every suffix of a text, the longest first. -/
def answers (test : List Char → Bool) (s : List Char) : List Bool :=
  s.tails.map test

/-- The answers at a text begin with the one for all of it. -/
theorem answers_cons (test : List Char → Bool) (c : Char) (s : List Char) :
    answers test (c :: s) = test (c :: s) :: answers test s := by
  simp [answers]

/-- The first answer is the one for the whole text. -/
@[simp] theorem headD_answers (test : List Char → Bool) (s : List Char) :
    (answers test s).headD false = test s := by
  cases s <;> simp [answers]

/-- The row for no token answers whether a suffix is empty. -/
theorem emptyRow_eq_answers (s : List Char) : emptyRow s = answers (·.isEmpty) s := by
  induction s with
  | nil => rfl
  | cons c s ih =>
    rw [answers_cons, ← ih]
    rfl

/-- The test of a token for one character, before another test. -/
def singleTest (t : Token) (test : List Char → Bool) : List Char → Bool
  | [] => false
  | c :: s => t.takes c && test s

/-- The row of a token for one character answers for that character and what follows it. -/
theorem singleRow_answers (t : Token) (test : List Char → Bool) (s : List Char) :
    singleRow t s (answers test s) = answers (singleTest t test) s := by
  induction s with
  | nil => rfl
  | cons c s ih =>
    rw [answers_cons, answers_cons, singleRow, ih, headD_answers]
    rfl

/-- A sequence asks the test behind it at every suffix. -/
theorem sequenceRow_answers (test : List Char → Bool) (s : List Char) :
    sequenceRow s (answers test s) = answers (fun r => r.tails.any test) s := by
  induction s with
  | nil => simp [answers, sequenceRow]
  | cons c s ih =>
    rw [answers_cons, answers_cons, sequenceRow, ih, headD_answers]
    simp

/-- The row of a star answers whether some end of the text passes. -/
theorem tokenRow_anySequence (test : List Char → Bool) (s : List Char) :
    tokenRow s .anySequence (answers test s) = answers (fun r => r.tails.any test) s :=
  sequenceRow_answers test s

/-- An escaped character takes that character alone. -/
theorem takes_literal (c d : Char) : (literal c).takes d = (c == d) := by
  by_cases h : isSpecial c <;> simp [literal, h, Token.takes, Spec.holds]

/-- The row of a character answers for that character and what follows it. -/
theorem tokenRow_literal (c : Char) (test : List Char → Bool) (s : List Char) :
    tokenRow s (literal c) (answers test s) = answers (singleTest (literal c) test) s := by
  rw [← singleRow_answers]
  by_cases h : isSpecial c <;> simp [literal, h, tokenRow]

/-- The tokens of an escaped text ask whether a suffix is that text. -/
theorem foldr_tokenRow_literal (cs s : List Char) :
    (cs.map literal).foldr (tokenRow s) (emptyRow s) = answers (· == cs) s := by
  induction cs with
  | nil => rw [List.map_nil, List.foldr_nil, emptyRow_eq_answers]; simp [answers]
  | cons c cs ih =>
    rw [List.map_cons, List.foldr_cons, ih, tokenRow_literal]
    congr 1
    funext r
    cases r with
    | nil => rfl
    | cons d r => simp [singleTest, takes_literal, Bool.beq_comm]

/-! ## Escaped texts -/

/-- The pattern that an escaped text is. -/
def Pattern.exactly (text : String) : Pattern :=
  ⟨text.toList.map literal⟩

/-- An escaped text is the pattern of exactly that text. -/
theorem ofText_escape (text : String) : Pattern.ofText (escape text) = .ok (.exactly text) := by
  obtain ⟨i, before, h⟩ := readTokens_escape text.toList 0 none [] []
  rw [List.append_nil] at h
  rw [Pattern.ofText, escape, String.toList_ofList, h]
  simp [readTokens, Except.map, Pattern.exactly]

/-- An escaped text accepts that text and no other. -/
theorem accepts_exactly_iff {text name : String} :
    (Pattern.exactly text).accepts name ↔ name = text := by
  rw [Pattern.accepts, Pattern.exactly, foldr_tokenRow_literal, headD_answers, beq_iff_eq,
    String.toList_inj]

/-- No escaped text has a wildcard for directories. -/
theorem isRecursive_exactly (text : String) : (Pattern.exactly text).isRecursive = false := by
  rw [Pattern.isRecursive, Pattern.exactly, List.contains_eq_mem, decide_eq_false_iff_not,
    List.mem_map]
  rintro ⟨c, -, hc⟩
  rw [literal] at hc
  split at hc <;> cases hc

/-- An escaped text is plain unless a character in it is special. -/
theorem plainText?_exactly (text : String) : (Pattern.exactly text).plainText? =
    if text.toList.any isSpecial then none else some text := by
  have hchars : ∀ cs : List Char, (cs.map literal).mapM Token.char? =
      if cs.any isSpecial then none else some cs := by
    intro cs
    induction cs with
    | nil => rfl
    | cons c cs ih =>
      rw [List.map_cons, List.mapM_cons, ih]
      by_cases hc : isSpecial c
      · simp [literal, hc, Token.char?]
      · by_cases hcs : cs.any isSpecial <;> simp [literal, hc, hcs, Token.char?]
  rw [Pattern.plainText?, Pattern.exactly, hchars]
  split
  · rfl
  · rw [Option.map_some, String.ofList_toList]

/-- The pattern of all texts that end with a given one: a star and then its characters. -/
def Pattern.ending (text : String) : Pattern :=
  ⟨.anySequence :: text.toList.map literal⟩

/-- The pattern of an ending accepts what ends with the text. -/
theorem accepts_ending_iff {text name : String} :
    (Pattern.ending text).accepts name ↔ text.toList <:+ name.toList := by
  rw [Pattern.accepts, Pattern.ending, List.foldr_cons, foldr_tokenRow_literal,
    tokenRow_anySequence, headD_answers]
  simp

/-- The pattern of an ending is not recursive. -/
theorem isRecursive_ending (text : String) : (Pattern.ending text).isRecursive = false := by
  have h := isRecursive_exactly text
  rw [Pattern.isRecursive, Pattern.exactly] at h
  rw [Pattern.isRecursive, Pattern.ending, List.contains_cons, h]
  rfl

/-- The pattern of an ending is no plain text. -/
theorem plainText?_ending (text : String) : (Pattern.ending text).plainText? = none := by
  rw [Pattern.plainText?, Pattern.ending, List.mapM_cons]
  rfl

end SchemaDrift.Wildcard
