import SchemaDrift.Json.Basic

/-!
# Tokens of JSON texts

A JSON text is a sequence of brackets, braces, commas, colons, strings, numbers and the words
`null`, `true` and `false`, with blanks between them. `Token.ofText?` refuses a text that holds
anything else.
-/

namespace SchemaDrift.Json

/-- A token of a JSON text. -/
inductive Token
  | mark (c : Char)
  | string (s : String)
  | nat (n : Nat)
  | number (spelling : String)
  | null
  | bool (b : Bool)
deriving DecidableEq

/-- Whether a character may stand between tokens. -/
def isSpace (c : Char) : Bool :=
  c == ' ' || c == '\t' || c == '\n' || c == '\r'

/-- Whether a character is a token by itself. -/
def isMark (c : Char) : Bool :=
  c == '[' || c == ']' || c == '{' || c == '}' || c == ',' || c == ':'

/-- The value of a hexadecimal digit. -/
def hexValue? (c : Char) : Option Nat :=
  if '0' ≤ c ∧ c ≤ '9' then some (c.toNat - 48)
  else if 'a' ≤ c ∧ c ≤ 'f' then some (c.toNat - 87)
  else if 'A' ≤ c ∧ c ≤ 'F' then some (c.toNat - 55)
  else none

/-- The number of four hexadecimal digits. -/
def hexUnit? (a b c d : Char) : Option Nat := do
  let a ← hexValue? a
  let b ← hexValue? b
  let c ← hexValue? c
  let d ← hexValue? d
  return ((a * 16 + b) * 16 + c) * 16 + d

/-- The character that a letter behind a backslash stands for. -/
def escaped? (c : Char) : Option Char :=
  if c = '"' ∨ c = '\\' ∨ c = '/' then some c
  else if c = 'b' then some '\x08'
  else if c = 't' then some '\t'
  else if c = 'n' then some '\n'
  else if c = 'f' then some '\x0c'
  else if c = 'r' then some '\r'
  else none

/-- The codes of the characters of a string, given the text behind its opening quote, and the text
behind its closing quote. An escape may give one half of a pair of code units. -/
def readCodes : List Char → Option (List Nat × List Char)
  | [] => none
  | '\\' :: 'u' :: a :: b :: c :: d :: s =>
    (hexUnit? a b c d).bind fun code => (readCodes s).map fun r => (code :: r.1, r.2)
  | '\\' :: c :: s =>
    (escaped? c).bind fun c => (readCodes s).map fun r => (c.toNat :: r.1, r.2)
  | c :: s =>
    if c = '"' then some ([], s)
    else if c = '\\' ∨ c.toNat < 0x20 then none
    else (readCodes s).map fun r => (c.toNat :: r.1, r.2)

/-- The characters with given codes, where a high and a low half make up one character. -/
def joinHalves : List Nat → Option (List Char)
  | [] => some []
  | [a] => if 0xD800 ≤ a ∧ a < 0xE000 then none else some [Char.ofNat a]
  | a :: b :: s =>
    if 0xD800 ≤ a ∧ a < 0xDC00 then
      if 0xDC00 ≤ b ∧ b < 0xE000 then
        (joinHalves s).map (Char.ofNat (0x10000 + (a - 0xD800) * 0x400 + (b - 0xDC00)) :: ·)
      else none
    else if 0xDC00 ≤ a ∧ a < 0xE000 then none
    else (joinHalves (b :: s)).map (Char.ofNat a :: ·)

/-- The characters of a string, given the text behind its opening quote, and the text behind its
closing quote. -/
def readString (s : List Char) : Option (List Char × List Char) :=
  (readCodes s).bind fun r => (joinHalves r.1).map (·, r.2)

/-- Whether a character may stand in a number. -/
def isNumberChar (c : Char) : Bool :=
  c.isDigit || c == '-' || c == '+' || c == '.' || c == 'e' || c == 'E'

/-- Whether a text is digits only, without a zero in front of others. -/
def isNatural (s : List Char) : Bool :=
  s.all Char.isDigit && (s.length == 1 || s.head?.any (· != '0'))

/-- Whether a text is a number: a natural number with an optional sign before it and an optional
fraction and exponent after it. -/
def isNumber (s : List Char) : Bool :=
  let unsigned := if s.head? = some '-' then s.tail else s
  let whole := unsigned.takeWhile Char.isDigit
  let rest := unsigned.dropWhile Char.isDigit
  let fraction := match rest with
    | '.' :: r => r.takeWhile Char.isDigit
    | _ => ['0']
  let rest := match rest with
    | '.' :: r => r.dropWhile Char.isDigit
    | r => r
  let exponent := match rest with
    | [] => ['0']
    | e :: r =>
      if e == 'e' || e == 'E' then
        if r.head? = some '-' ∨ r.head? = some '+' then r.tail else r
      else []
  isNatural whole && !fraction.isEmpty && !exponent.isEmpty && exponent.all Char.isDigit

/-- The number that decimal digits denote. -/
def ofDigits (s : List Char) : Nat :=
  s.foldl (fun n c => n * 10 + (c.toNat - 48)) 0

/-- The number token with a spelling. -/
def numberToken? (s : List Char) : Option Token :=
  if isNatural s then some (.nat (ofDigits s))
  else if isNumber s then some (.number (String.ofList s))
  else none

/-- The token that a word is. -/
def wordToken? (s : List Char) : Option Token :=
  if s = ['n', 'u', 'l', 'l'] then some .null
  else if s = ['t', 'r', 'u', 'e'] then some (.bool true)
  else if s = ['f', 'a', 'l', 's', 'e'] then some (.bool false)
  else none

/-- The token at the head of a text that begins with no blank, and the text behind it. -/
def readToken : List Char → Option (Token × List Char)
  | [] => none
  | c :: s =>
    if isMark c then some (.mark c, s)
    else if c = '"' then (readString s).map fun r => (.string (String.ofList r.1), r.2)
    else if isNumberChar c then
      (numberToken? (c :: s.takeWhile isNumberChar)).map (·, s.dropWhile isNumberChar)
    else
      (wordToken? (c :: s.takeWhile Char.isAlpha)).map (·, s.dropWhile Char.isAlpha)

/-- Dropping a run of characters makes no text longer. -/
theorem length_dropWhile_le (p : Char → Bool) (s : List Char) :
    (s.dropWhile p).length ≤ s.length :=
  (List.dropWhile_sublist p).length_le

/-- Reading the codes of a string leaves at most the text that was there. -/
theorem length_readCodes {s : List Char} {r : List Nat × List Char}
    (h : readCodes s = some r) : r.2.length ≤ s.length := by
  fun_induction readCodes s generalizing r with
  | case1 => cases h
  | case2 a b c d s ih =>
    obtain ⟨_, _, h⟩ := Option.bind_eq_some_iff.1 h
    obtain ⟨x, hx, rfl⟩ := Option.map_eq_some_iff.1 h
    have := ih hx
    simp only [List.length_cons]; omega
  | case3 c s _ ih =>
    obtain ⟨_, _, h⟩ := Option.bind_eq_some_iff.1 h
    obtain ⟨x, hx, rfl⟩ := Option.map_eq_some_iff.1 h
    have := ih hx
    simp only [List.length_cons]; omega
  | case4 => cases h; simp
  | case5 => cases h
  | case6 c s _ _ _ _ ih =>
    obtain ⟨x, hx, rfl⟩ := Option.map_eq_some_iff.1 h
    have := ih hx
    simp only [List.length_cons]; omega

/-- Reading a string leaves at most the text that was there. -/
theorem length_readString {s : List Char} {r : List Char × List Char}
    (h : readString s = some r) : r.2.length ≤ s.length := by
  obtain ⟨x, hx, h⟩ := Option.bind_eq_some_iff.1 h
  obtain ⟨_, _, rfl⟩ := Option.map_eq_some_iff.1 h
  exact length_readCodes hx

/-- Reading a token uses up at least one character, so that reading all tokens ends. -/
theorem length_readToken {s : List Char} {r : Token × List Char}
    (h : readToken s = some r) : r.2.length < s.length := by
  cases s with
  | nil => cases h
  | cons c s =>
    rw [readToken] at h
    have h₁ := length_dropWhile_le isNumberChar s
    have h₂ := length_dropWhile_le Char.isAlpha s
    split at h
    · cases h; simp
    split at h
    · obtain ⟨x, hx, rfl⟩ := Option.map_eq_some_iff.1 h
      have := length_readString hx
      simp only [List.length_cons]; omega
    split at h
    · obtain ⟨x, hx, rfl⟩ := Option.map_eq_some_iff.1 h
      simp only [List.length_cons]; omega
    · obtain ⟨x, hx, rfl⟩ := Option.map_eq_some_iff.1 h
      simp only [List.length_cons]; omega

/-- The tokens of a text. -/
def Token.ofText? : List Char → Option (List Token)
  | [] => some []
  | c :: s =>
    if isSpace c then Token.ofText? s
    else
      match _h : readToken (c :: s) with
      | none => none
      | some r => (Token.ofText? r.2).map (r.1 :: ·)
termination_by s => s.length
decreasing_by
  · simp
  · exact length_readToken (by assumption)

end SchemaDrift.Json
