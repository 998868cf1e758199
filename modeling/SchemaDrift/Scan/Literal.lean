/-!
# Literals

Where a string literal begins and how far it runs, for SQL and for TypeScript. A literal that is
never closed runs to the end of the text.

The scanner compares symbols with ASCII characters only. So it reads a text by its characters, or
by the bytes of its encoding when each byte stands as the character with that code.
-/

namespace SchemaDrift.Scan

/-- The two languages whose texts are scanned. -/
inductive Dialect
  | sql
  | typeScript
deriving DecidableEq, Repr

/-- A text up to and including the first `q`, or all of it. -/
def throughQuote (q : Char) : List Char → List Char
  | [] => []
  | c :: s => if c = q then [c] else c :: throughQuote q s

/-- A text up to and including the first `q` that no backslash escapes, or all of it. -/
def throughEscapedQuote (q : Char) : List Char → List Char
  | [] => []
  | [c] => [c]
  | c :: e :: s =>
    if c = '\\' then c :: e :: throughEscapedQuote q s
    else if c = q then [c]
    else c :: throughEscapedQuote q (e :: s)

/-- A text up to and including the first occurrence of `tag`, or all of it. -/
def throughTag (tag : List Char) : List Char → List Char
  | [] => []
  | c :: s => if tag.isPrefixOf (c :: s) then tag else c :: throughTag tag s

/-- Whether a character may stand in the label of a dollar quote. -/
def isLabelChar (c : Char) : Bool :=
  c.isAlphanum || c == '_'

/-- The tag of a dollar quote, given the text behind its first dollar sign. A label that begins
with a digit is none: that is how placeholders are written. -/
def dollarTag? (s : List Char) : Option (List Char) :=
  let label := s.takeWhile isLabelChar
  match s.dropWhile isLabelChar with
  | '$' :: _ => if label.head?.any Char.isDigit then none else some ('$' :: label ++ ['$'])
  | _ => none

/-- The literal at the head of a text, if one begins there. -/
def literal? : Dialect → List Char → Option (List Char)
  | _, [] => none
  | .sql, q :: s =>
    if q = '\'' ∨ q = '"' then some (q :: throughQuote q s)
    else if q = '$' then
      (dollarTag? s).map fun tag => tag ++ throughTag tag ((q :: s).drop tag.length)
    else none
  | .typeScript, q :: s =>
    if q = '\'' ∨ q = '"' ∨ q = '`' then some (q :: throughEscapedQuote q s) else none

end SchemaDrift.Scan
