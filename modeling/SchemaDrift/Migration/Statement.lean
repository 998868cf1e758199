import SchemaDrift.Migration.Identifier

/-!
# Phrases of migrations

The heads of the statements that define or alter tables, the clauses that declare foreign keys, and
the actions that add columns. Keywords may be written in any case.
-/

namespace SchemaDrift.Migration

open SchemaDrift.Text Phrase

/-- Keywords with blanks behind each. -/
def keywords : List String → Phrase Unit
  | [] => pure ()
  | w :: ws => do
    keyword w
    blanks1
    keywords ws

/-- The head of a table definition up to the parenthesis that opens its body; gives the name. -/
def createHead : Phrase (List Char) := do
  keywords ["create"]
  let _ ← optional (keywords ["or", "replace"])
  let _ ← optional (do keywordOf ["global", "local"]; blanks1)
  let _ ← optional (do keywordOf ["temp", "temporary", "unlogged"]; blanks1)
  keywords ["table"]
  let _ ← optional (keywords ["if", "not", "exists"])
  let name ← qualifiedName
  blanks
  char '('
  return name

/-- The head of a table alteration up to its first action; gives the name. -/
def alterHead : Phrase (List Char) := do
  keywords ["alter", "table"]
  let _ ← optional (keywords ["if", "exists"])
  let _ ← optional (keywords ["only"])
  let name ← qualifiedName
  blanks1
  return name

/-- A statement that drops a table; gives the name. -/
def dropHead : Phrase (List Char) := do
  keywords ["drop", "table"]
  let _ ← optional (keywords ["if", "exists"])
  qualifiedName

/-- An identifier in parentheses; gives its spelling. -/
def parenthesized : Phrase (List Char) := do
  char '('
  blanks
  let s ← segment
  blanks
  char ')'
  return s

/-- The spelled table and column that a clause refers to. -/
structure Reference where
  table : List Char
  column : List Char

/-- A clause that refers to a column of a table. -/
def referencesClause : Phrase Reference := do
  keywords ["references"]
  let table ← qualifiedName
  blanks
  let column ← parenthesized
  return ⟨table, column⟩

/-- A constraint that makes one column a foreign key; gives the column too. -/
def foreignKeyClause : Phrase (List Char × Reference) := do
  keywords ["foreign"]
  keyword "key"
  blanks
  let column ← parenthesized
  blanks
  let target ← referencesClause
  return (column, target)

/-- An action that adds something to a table: whether it says that this is a column, and the
identifier it begins with. -/
structure AddAction where
  isColumn : Bool
  identifier : Identifier

/-- The beginning of an action that adds something to a table. -/
def addAction : Phrase AddAction := do
  keywords ["add"]
  let column ← optional (keywords ["column"])
  let _ ← optional (keywords ["if", "not", "exists"])
  let name ← Migration.identifier isFoldedNameStart
  return ⟨column.isSome, name⟩

/-- The first foreign key constraint in a clause. -/
def foreignKeyIn? (clause : List Char) : Option (List Char × Reference) :=
  (occurrences (atWordStart foreignKeyClause) clause).head?.map (·.value)

/-- The first reference in a clause. -/
def referenceIn? (clause : List Char) : Option Reference :=
  (occurrences (atWordStart referencesClause) clause).head?.map (·.value)

end SchemaDrift.Migration
