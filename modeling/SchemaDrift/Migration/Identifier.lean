import SchemaDrift.Text.Phrase

/-!
# Identifiers and names in migrations

An identifier is plain or stands between double quotes. A name is an identifier, or two of them
joined by a dot. In patterns that ignore case a plain identifier may also begin with a letter that
folds to an ASCII letter. What a spelled identifier denotes stands without its double quotes
(`unquote`), and of a qualified name only what follows the last dot counts (`objectName`).
-/

namespace SchemaDrift.Migration

open SchemaDrift.Text

/-- Whether a plain identifier may begin with a character. -/
def isNameStart (c : Char) : Bool :=
  c.isAlpha || c == '_'

/-- Whether a plain identifier may go on with a character. -/
def isNameChar (c : Char) : Bool :=
  isWord c || c == '$'

/-- Whether a plain identifier may begin with a character when case is ignored. -/
def isFoldedNameStart (c : Char) : Bool :=
  isNameStart (Phrase.foldCase c)

/-- A plain identifier that begins with a character of a class. -/
def plainName (start : Char → Bool) : Phrase (List Char) := do
  let c ← Phrase.oneOf start
  let s ← Phrase.run isNameChar
  return c :: s

/-- The content of a quoted identifier. -/
def quotedName : Phrase (List Char) := do
  Phrase.char '"'
  let s ← Phrase.run1 (· != '"')
  Phrase.char '"'
  return s

/-- The name that an identifier gives, and whether it was quoted. -/
structure Identifier where
  name : String
  quoted : Bool
deriving DecidableEq

/-- An identifier whose plain form begins with a character of a class. -/
def identifier (start : Char → Bool) : Phrase Identifier :=
  Phrase.either (do let s ← quotedName; return ⟨String.ofList s, true⟩)
    (do let s ← plainName start; return ⟨String.ofList s, false⟩)

/-- The spelling of an identifier, with case ignored. -/
def segment : Phrase (List Char) :=
  Phrase.spelled (identifier isFoldedNameStart)

/-- The spelling of a name: an identifier, or two joined by a dot. -/
def qualifiedName : Phrase (List Char) :=
  Phrase.spelled do
    let _ ← segment
    Phrase.optional do
      Phrase.blanks
      Phrase.char '.'
      Phrase.blanks
      segment

/-! ## What names denote -/

/-- The text between a double quote at each end, if both are there. -/
def betweenQuotes? : List Char → Option (List Char)
  | '"' :: s => if s.getLast? = some '"' then some s.dropLast else none
  | _ => none

/-- A trimmed identifier without the double quotes around it. -/
def unquote (s : List Char) : List Char :=
  (betweenQuotes? (trim s)).getD (trim s)

/-- The text behind the last dot, or all of it. -/
def afterLastDot (s : List Char) : List Char :=
  (s.reverse.takeWhile (· ≠ '.')).reverse

/-- The name of an object without the schema it belongs to. -/
def objectName (s : List Char) : List Char :=
  unquote (afterLastDot s)

/-! ## Clauses -/

/-- The words that begin a table constraint. -/
def constraintWords : List String :=
  ["primary", "foreign", "unique", "check", "constraint", "index", "exclude", "like"]

/-- Whether a word begins a table constraint, whatever the case of its letters. -/
def isConstraintWord (s : List Char) : Bool :=
  constraintWords.any fun w => w.toList == s.map Char.toLower

/-- Whether an identifier begins a table constraint: a quoted one never does. -/
def Identifier.isConstraint (i : Identifier) : Bool :=
  !i.quoted && isConstraintWord i.name.toList

/-- The identifier that a clause begins with. -/
def leadingIdentifier? (clause : List Char) : Option Identifier :=
  ((identifier isNameStart).best? (trimStart clause)).map (·.1)

end SchemaDrift.Migration
