import SchemaDrift.Text.CharClass

/-!
# Phrases and their occurrences

A phrase gives the ways in which the head of a text can be read, best first, each with its meaning
and the text after it. Alternatives and optional parts keep every way open, so a later part of a
phrase may still reject the way preferred first; runs of characters are always taken whole.

`occurrences` finds a phrase in a text from left to right. A phrase may look at the character
before it, and the search resumes behind each occurrence.
-/

namespace SchemaDrift.Text

/-- The readings of the head of a text, best first. -/
structure Phrase (β : Type) where
  read : List Char → List (β × List Char)

namespace Phrase

variable {β γ : Type}

instance : Monad Phrase where
  pure b := ⟨fun s => [(b, s)]⟩
  bind p f := ⟨fun s => (p.read s).flatMap fun r => (f r.1).read r.2⟩

/-- The phrase that nothing is. -/
def never : Phrase β :=
  ⟨fun _ => []⟩

/-- Either of two phrases, the first preferred. -/
def either (p q : Phrase β) : Phrase β :=
  ⟨fun s => p.read s ++ q.read s⟩

/-- A phrase that may be absent, though its presence is preferred. -/
def optional (p : Phrase β) : Phrase (Option β) :=
  either (some <$> p) (pure none)

/-- One character of a class. -/
def oneOf (ok : Char → Bool) : Phrase Char :=
  ⟨fun
    | [] => []
    | c :: s => if ok c then [(c, s)] else []⟩

/-- One given character. -/
def char (c : Char) : Phrase Unit :=
  ⟨fun
    | [] => []
    | x :: s => if x = c then [((), s)] else []⟩

/-- The longest run of characters of a class. -/
def run (ok : Char → Bool) : Phrase (List Char) :=
  ⟨fun s => [(s.takeWhile ok, s.dropWhile ok)]⟩

/-- The longest run of characters of a class, of at least one. -/
def run1 (ok : Char → Bool) : Phrase (List Char) := do
  let c ← oneOf ok
  let s ← run ok
  return c :: s

/-- All blanks that follow. -/
def blanks : Phrase Unit := do
  let _ ← run isBlank

/-- All blanks that follow, of which there is at least one. -/
def blanks1 : Phrase Unit := do
  let _ ← run1 isBlank

/-- A given text, letter by letter. -/
def exactly : List Char → Phrase Unit
  | [] => pure ()
  | c :: s => do
    char c
    exactly s

/-- A letter with its case folded: the long s folds to s and the Kelvin sign to k. -/
def foldCase (c : Char) : Char :=
  if c = '\u017f' then 's' else if c = '\u212a' then 'k' else c.toLower

/-- A keyword, given in lowercase, in any mixture of cases. -/
def keywordLetters : List Char → Phrase Unit
  | [] => pure ()
  | c :: s => do
    let _ ← oneOf fun x => foldCase x == c
    keywordLetters s

/-- A keyword, given in lowercase, in any mixture of cases. -/
def keyword (w : String) : Phrase Unit :=
  keywordLetters w.toList

/-- The first of several keywords that leads to a reading. -/
def keywordOf (ws : List String) : Phrase Unit :=
  (ws.map keyword).foldr either never

/-- Nothing, at a place where a word begins or ends. -/
def boundary (before : Option Char) : Phrase Unit :=
  ⟨fun s => if wordBoundary before s.head? then [((), s)] else []⟩

/-- What a phrase was spelled like. -/
def spelled (p : Phrase β) : Phrase (List Char) :=
  ⟨fun s => (p.read s).map fun r => (s.take (s.length - r.2.length), r.2)⟩

/-- The best reading of the head of a text. -/
def best? (p : Phrase β) (s : List Char) : Option (β × List Char) :=
  (p.read s).head?

end Phrase

/-- A phrase found in a text: where it starts and stops, counted in characters, what it means, and
the text behind it. -/
structure Occurrence (β : Type) where
  start : Nat
  stop : Nat
  value : β
  rest : List Char

/-- The occurrences of a phrase from a position on. The first `skip` characters belong to an
occurrence that was found before. -/
def search {β : Type} (p : Option Char → Phrase β) :
    (skip start : Nat) → (before : Option Char) → List Char → List (Occurrence β)
  | _, _, _, [] => []
  | skip + 1, i, _, c :: s => search p skip (i + 1) (some c) s
  | 0, i, before, c :: s =>
    match (p before).best? (c :: s) with
    | none => search p 0 (i + 1) (some c) s
    | some (b, rest) =>
      let size := (c :: s).length - rest.length
      ⟨i, i + size, b, rest⟩ :: search p (size - 1) (i + 1) (some c) s

/-- The occurrences of a phrase in a text, from left to right and apart from each other. The phrase
may depend on the character before it. -/
def occurrences {β : Type} (p : Option Char → Phrase β) (s : List Char) : List (Occurrence β) :=
  search p 0 0 none s

/-- A phrase that must not continue a word. -/
def atWordStart {β : Type} (p : Phrase β) (before : Option Char) : Phrase β :=
  if before.any isWord then Phrase.never else p

end SchemaDrift.Text
