/-!
# Wildcard patterns

A pattern is a sequence of tokens: single characters, `?` for any one, sets in square brackets, `*`
for any sequence, and `**`, which must be a whole path component. `Pattern.ofText` refuses a text
that is no pattern and tells where and why. A text is made a pattern of its own by putting every
character that means something in patterns into a set by itself (`escape`).
-/

namespace SchemaDrift.Wildcard

/-- An element of a set: a character, or all characters between two. -/
inductive Spec
  | single (c : Char)
  | range (low high : Char)
deriving DecidableEq

/-- A token of a pattern. -/
inductive Token
  | char (c : Char)
  | anyChar
  | anySequence
  | anyDirectories
  | within (set : List Spec)
  | except (set : List Spec)
deriving DecidableEq

/-- Why a text is no pattern. -/
inductive Cause
  | tooManyStars
  | starsInComponent
  | invalidSet
deriving DecidableEq

/-- Where a text stops being a pattern, counted in characters, and why. -/
structure PatternError where
  position : Nat
  cause : Cause
deriving DecidableEq

/-- What is said of a cause. -/
def Cause.message : Cause → String
  | tooManyStars => "wildcards are either regular `*` or recursive `**`"
  | starsInComponent => "recursive wildcards must form a single path component"
  | invalidSet => "invalid range pattern"

/-- What is said of a text that is no pattern. -/
def PatternError.message (e : PatternError) : String :=
  "Pattern syntax error near position " ++ toString e.position ++ ": " ++ e.cause.message

/-- The elements of a set, given the text between its brackets. -/
def readSet : List Char → List Spec
  | a :: '-' :: b :: s => .range a b :: readSet s
  | a :: s => .single a :: readSet s
  | [] => []

/-- The text of a set, given the text behind its opening: it has at least one character and ends
before the next closing bracket. -/
def setText? : List Char → Option (List Char)
  | [] => none
  | c :: s => if s.contains ']' then some (c :: s.takeWhile (· ≠ ']')) else none

/-- The token that a set is and the number of its characters, given the text behind its opening
bracket. -/
def readBracket? : List Char → Option (Token × Nat)
  | '!' :: s => (setText? s).map fun t => (.except (readSet t), t.length + 3)
  | s => (setText? s).map fun t => (.within (readSet t), t.length + 2)

/-- A token list, latest first, with a wildcard for directories, which is left out behind another
one unless it is among the first two tokens. -/
def pushDirectories (tokens : List Token) : List Token :=
  if 1 < tokens.length ∧ tokens.head? = some .anyDirectories then tokens
  else .anyDirectories :: tokens

/-- The tokens of a text from a position on, behind those before it, latest first. The first `skip`
characters belong to a token that was read before. -/
def readTokens : (skip position : Nat) → (before : Option Char) → (tokens : List Token) →
    List Char → Except PatternError (List Token)
  | _, _, _, tokens, [] => .ok tokens.reverse
  | skip + 1, i, _, tokens, c :: s => readTokens skip (i + 1) (some c) tokens s
  | 0, i, before, tokens, c :: s =>
    if c = '?' then readTokens 0 (i + 1) (some c) (.anyChar :: tokens) s
    else if c = '*' then
      match (s.takeWhile (· = '*')).length with
      | 0 => readTokens 0 (i + 1) (some c) (.anySequence :: tokens) s
      | 1 =>
        if before.any (· ≠ '/') then .error ⟨i - 1, .starsInComponent⟩
        else
          match s.drop 1 with
          | [] => readTokens 1 (i + 1) (some c) (pushDirectories tokens) s
          | e :: _ =>
            if e = '/' then readTokens 2 (i + 1) (some c) (pushDirectories tokens) s
            else .error ⟨i + 2, .starsInComponent⟩
      | _ => .error ⟨i + 2, .tooManyStars⟩
    else if c = '[' then
      match readBracket? s with
      | some (t, size) => readTokens (size - 1) (i + 1) (some c) (t :: tokens) s
      | none => .error ⟨i, .invalidSet⟩
    else readTokens 0 (i + 1) (some c) (.char c :: tokens) s

/-- A wildcard pattern. -/
structure Pattern where
  tokens : List Token
deriving DecidableEq

/-- The pattern that a text is. -/
def Pattern.ofText (s : String) : Except PatternError Pattern :=
  (readTokens 0 0 none [] s.toList).map Pattern.mk

/-- The character that a token stands for, if it stands for one alone. -/
def Token.char? : Token → Option Char
  | char c => some c
  | _ => none

/-- The text that a pattern without wildcards and sets is. -/
def Pattern.plainText? (p : Pattern) : Option String :=
  (p.tokens.mapM Token.char?).map String.ofList

/-- Whether a pattern has a wildcard for directories. -/
def Pattern.isRecursive (p : Pattern) : Bool :=
  p.tokens.contains .anyDirectories

/-! ## Texts as patterns -/

/-- Whether a character means something in patterns. -/
def isSpecial (c : Char) : Bool :=
  c == '?' || c == '*' || c == '[' || c == ']'

/-- A character as a pattern. -/
def escapeChar (c : Char) : List Char :=
  if isSpecial c then ['[', c, ']'] else [c]

/-- A text as a pattern. -/
def escape (text : String) : String :=
  String.ofList (text.toList.flatMap escapeChar)

end SchemaDrift.Wildcard
