import SchemaDrift.Migration.Identifier

/-!
# Calls in query modules

The method calls by which a module selects a table, compares a column, or gives several comparisons
in one text.
-/

namespace SchemaDrift.Query

open SchemaDrift.Text Phrase

/-- Whether a character may quote an argument. -/
def isQuote (c : Char) : Bool :=
  c == '\'' || c == '"' || c == '`'

/-- A name between quotes, which need not be of one kind. -/
def quotedName : Phrase (List Char) := do
  let _ ← oneOf isQuote
  let name ← Migration.plainName Migration.isNameStart
  let _ ← oneOf isQuote
  return name

/-- A call that selects a table; gives the table. -/
def fromCall : Phrase (List Char) := do
  exactly ['.', 'f', 'r', 'o', 'm', '(']
  blanks
  let table ← quotedName
  blanks
  char ')'
  return table

/-- The methods that compare or order by a column. -/
def operators : List (List Char) :=
  [['e', 'q'], ['n', 'e', 'q'], ['g', 't'], ['g', 't', 'e'], ['l', 't'], ['l', 't', 'e'],
   ['o', 'r', 'd', 'e', 'r'], ['f', 'i', 'l', 't', 'e', 'r'], ['l', 'i', 'k', 'e'],
   ['i', 'l', 'i', 'k', 'e']]

/-- One of the methods that compare or order by a column. -/
def operator : Phrase (List Char) :=
  (operators.map fun o => do exactly o; return o).foldr either never

/-- Whether a plain argument may begin with a character. -/
def isArgumentStart (c : Char) : Bool :=
  c.isAlpha || c == '_' || c == '$'

/-- Whether a plain argument may go on with a character. -/
def isArgumentChar (c : Char) : Bool :=
  Migration.isNameChar c || c == '.'

/-- A further argument that is a plain name, with what ends it. -/
def plainArgument : Phrase (List Char) := do
  char ','
  blanks
  let c ← oneOf isArgumentStart
  let s ← run isArgumentChar
  blanks
  let _ ← oneOf fun c => c == ',' || c == ')'
  return c :: s

/-- A call on a column: its method, the column, and the name it is compared with. -/
structure Predicate where
  operator : List Char
  column : List Char
  argument : Option (List Char)

/-- The part of a call on a column up to the closing quote of the column. -/
def predicateHead : Phrase (List Char × List Char) := do
  char '.'
  let op ← operator
  char '('
  blanks
  let column ← quotedName
  return (op, column)

/-- A call on a column. -/
def predicateCall : Phrase Predicate := do
  let (op, column) ← predicateHead
  blanks
  let argument ← optional plainArgument
  return ⟨op, column, argument⟩

/-- A call that gives several comparisons in one text; gives the text. -/
def orCall : Phrase (List Char) := do
  exactly ['.', 'o', 'r', '(']
  blanks
  let _ ← oneOf isQuote
  let filters ← run fun c => !isQuote c
  let _ ← oneOf isQuote
  return filters

/-- The column that one comparison of such a text begins with. -/
def comparedColumn : Phrase (List Char) := do
  let name ← Migration.plainName Migration.isNameStart
  char '.'
  return name

end SchemaDrift.Query
