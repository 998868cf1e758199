import SchemaDrift.Extraction
import SchemaDrift.Migration.Identifier
import SchemaDrift.RowType.Member
import SchemaDrift.Snapshot.Basic

/-!
# Reading type files

A type file declares the row of a table by an object type named for the table whose first member is
called `Row`. The members of that row are the columns of the table.
-/

namespace SchemaDrift.RowType

open SchemaDrift.Text SchemaDrift.Scan Phrase

/-- A text between two quotes of a kind. -/
def between (q : Char) : Phrase (List Char) := do
  char q
  let s ← run1 (· != q)
  char q
  return s

/-- A plain table name, where a word begins or ends before it. -/
def plainTable (before : Option Char) : Phrase (List Char) := do
  boundary before
  let c ← oneOf isMemberStart
  let s ← run Migration.isNameChar
  return c :: s

/-- A character with the blanks before it. -/
def mark (c : Char) : Phrase Unit := do
  blanks
  char c

/-- The head of the row of a table up to the brace that opens it; gives the table. -/
def rowHead (before : Option Char) : Phrase (List Char) := do
  let table ← either (between '"') (either (between '\'') (plainTable before))
  mark ':'
  mark '{'
  blanks
  exactly ['R', 'o', 'w']
  mark ':'
  mark '{'
  return table

/-- The row of a table in a type file, with its columns unless it is never closed. -/
structure Row where
  table : String
  columns : Option (List String)
deriving DecidableEq

/-- The rows in a text without comments. -/
def rows (text : List Char) : List Row :=
  (occurrences rowHead text).map fun o =>
    ⟨String.ofList o.value,
      (enclosed? .typeScript ('{' :: o.rest)).map fun body =>
        (memberNames body).map String.ofList⟩

/-- The diagnostic of a row that is never closed. -/
def Row.diagnostic? (source : String) (r : Row) : Option Diagnostic :=
  match r.columns with
  | none => some ⟨source, .parseSkip, r.table ++ ": unbalanced Row block, skipped"⟩
  | some _ => none

/-- The columns with those of a row. -/
def record (s : ColumnSet) (r : Row) : ColumnSet :=
  match r.columns with
  | none => s
  | some columns => s.insertMany r.table columns

/-- The columns that a type file declares. -/
def extract (source : Source) : Extraction RowTypes :=
  let found := rows (stripComments .typeScript source.text.toList)
  { snapshot := ⟨found.foldl record ∅⟩
    diagnostics := found.filterMap (Row.diagnostic? source.name) }

/-- The log of an extraction. -/
def log (types : RowTypes) : List LogLine :=
  [⟨.debug, "type snapshot built", [("tables", toString types.columns.size)]⟩]

end SchemaDrift.RowType
