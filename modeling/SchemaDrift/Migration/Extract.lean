import SchemaDrift.Migration.Fact
import SchemaDrift.Migration.Statement
import SchemaDrift.Scan.Bracket

/-!
# Reading migrations

The text of a migration, with its comments blanked, is searched for table definitions, for table
alterations, for dropped tables and for references outside alterations, in this order. A reference
belongs to the column that begins its clause and to the table defined last before it.
-/

namespace SchemaDrift.Migration

open SchemaDrift.Text SchemaDrift.Scan

/-- A fragment on one line, cut short if it has more than sixty characters. -/
def abbreviate (fragment : List Char) : String :=
  let line := [' '].intercalate (words fragment)
  String.ofList (if line.length > 60 then line.take 57 ++ ['.', '.', '.'] else line)

/-- The name of the object that a spelled name denotes. -/
def nameOf (spelled : List Char) : String :=
  String.ofList (objectName spelled)

/-- The name that a spelled identifier denotes. -/
def columnOf (spelled : List Char) : String :=
  String.ofList (unquote spelled)

/-- The foreign key that a constraint in a clause declares for a table. -/
def constraintFacts (table : String) (clause : List Char) : List Fact :=
  ((foreignKeyIn? clause).map fun fk =>
    .foreignKey ⟨table, columnOf fk.1, nameOf fk.2.table, columnOf fk.2.column⟩).toList

/-! ## Table definitions -/

/-- What a trimmed clause of the body of a table says. -/
def clauseFacts (table : String) (clause : List Char) : List Fact :=
  match leadingIdentifier? clause with
  | none => [.notice (.unreadClause table (abbreviate clause))]
  | some i => if i.isConstraint then constraintFacts table clause else [.column table i.name]

/-- What the body of a table says. -/
def bodyFacts (table : String) (body : List Char) : List Fact :=
  if (trim body).isEmpty then []
  else (splitTopLevel .sql ',' body).flatMap fun clause => clauseFacts table (trim clause)

/-- The heads of the table definitions in a text. -/
def tableHeads (sql : List Char) : List (Occurrence (List Char)) :=
  occurrences (atWordStart createHead) sql

/-- What a table definition says, given the text behind its opening parenthesis. -/
def definitionFacts (table : String) (rest : List Char) : List Fact :=
  match enclosed? .sql ('(' :: rest) with
  | none => [.notice (.unbalancedBody table), .table table]
  | some body => .table table :: bodyFacts table body

/-- What the table definitions in a text say. -/
def createFacts (sql : List Char) : List Fact :=
  (tableHeads sql).flatMap fun o => definitionFacts (nameOf o.value) o.rest

/-! ## Table alterations -/

/-- Whether an action that adds nothing changes columns. -/
def touchesColumns (action : List Char) : Bool :=
  let verb := ((words action).getD 0 []).map Char.toLower
  let target := (words action).getD 1 []
  (verb == ['d', 'r', 'o', 'p'] || verb == ['r', 'e', 'n', 'a', 'm', 'e']) &&
    !isConstraintWord target

/-- What a trimmed action on a table says. -/
def actionFacts (table : String) (action : List Char) : List Fact :=
  match addAction.best? action with
  | some (add, _) =>
    if !add.isColumn && add.identifier.isConstraint then constraintFacts table action
    else
      let column := add.identifier.name
      .column table column :: ((referenceIn? action).map fun r =>
        .foreignKey ⟨table, column, nameOf r.table, columnOf r.column⟩).toList
  | none =>
    if touchesColumns action then [.notice (.ignoredAction table (abbreviate action))]
    else [.notice (.skippedAction table (abbreviate action))]

/-- The heads of the table alterations in a text. -/
def alterHeads (sql : List Char) : List (Occurrence (List Char)) :=
  occurrences (atWordStart alterHead) sql

/-- What the table alterations in a text say. -/
def alterFacts (sql : List Char) : List Fact :=
  (alterHeads sql).flatMap fun o =>
    (splitTopLevel .sql ',' (statement .sql o.rest)).flatMap fun action =>
      actionFacts (nameOf o.value) (trim action)

/-- Where the table alterations in a text begin and end. -/
def alterSpans (sql : List Char) : List (Nat × Nat) :=
  (alterHeads sql).map fun o => (o.start, o.stop + (statement .sql o.rest).length)

/-! ## Dropped tables -/

/-- What the dropped tables in a text say. -/
def dropFacts (sql : List Char) : List Fact :=
  (occurrences (atWordStart dropHead) sql).map fun o => .notice (.ignoredDrop (nameOf o.value))

/-! ## References -/

/-- The end of a reversed text back to a comma, a semicolon or an opening parenthesis that no
closing one behind it matches. -/
def clauseBackwards : (depth : Nat) → List Char → List Char
  | _, [] => []
  | depth, c :: s =>
    if c = ')' then c :: clauseBackwards (depth + 1) s
    else if c = '(' then
      match depth with
      | 0 => []
      | depth + 1 => c :: clauseBackwards depth s
    else if (c = ',' ∨ c = ';') ∧ depth = 0 then []
    else c :: clauseBackwards depth s

/-- The clause at the end of a text, trimmed. -/
def clauseBefore (before : List Char) : List Char :=
  trim (clauseBackwards 0 before.reverse).reverse

/-- The last of the tables defined before a position. -/
def tableBefore? (heads : List (Occurrence (List Char))) (position : Nat) : Option String :=
  ((heads.filter fun o => o.start < position).getLast?).map fun o => nameOf o.value

/-- What a reference says, given the identifier that begins its clause and the table defined last
before it. -/
def edgeFacts (source? : Option Identifier) (table? : Option String) (r : Reference) : List Fact :=
  match source? with
  | none => [.notice (.sourcelessReference (String.ofList r.table))]
  | some i =>
    if i.isConstraint then []
    else
      let table := nameOf r.table
      let column := columnOf r.column
      match table? with
      | none => [.notice (.orphanReference i.name table column)]
      | some source => [.foreignKey ⟨source, i.name, table, column⟩]

/-- What a reference says that stands outside every alteration, given the heads of the table
definitions. -/
def referenceFacts (heads : List (Occurrence (List Char))) (sql : List Char)
    (o : Occurrence Reference) : List Fact :=
  edgeFacts (leadingIdentifier? (clauseBefore (sql.take o.start))) (tableBefore? heads o.start)
    o.value

/-- Whether one of some spans covers a position. -/
def covered (spans : List (Nat × Nat)) (i : Nat) : Bool :=
  spans.any fun span => span.1 ≤ i && i < span.2

/-- The references outside alterations. -/
def looseReferences (sql : List Char) : List (Occurrence Reference) :=
  let spans := alterSpans sql
  (occurrences (atWordStart referencesClause) sql).filter fun o => !covered spans o.start

/-- What the references outside alterations say. -/
def inlineFacts (sql : List Char) : List Fact :=
  let heads := tableHeads sql
  (looseReferences sql).flatMap (referenceFacts heads sql)

/-! ## Whole migrations -/

/-- What a text without comments says. -/
def sqlFacts (sql : List Char) : List Fact :=
  createFacts sql ++ alterFacts sql ++ dropFacts sql ++ inlineFacts sql

/-- What a migration says. -/
def facts (migration : Source) : List Fact :=
  sqlFacts (stripComments .sql migration.text.toList)

/-- What had to be skipped in a migration of a name, given what it says. -/
def skipped (name : String) (found : List Fact) : List Diagnostic :=
  found.filterMap fun f => f.notice?.bind (·.diagnostic? name)

/-- What had to be skipped in a migration. -/
def diagnostics (migration : Source) : List Diagnostic :=
  skipped migration.name (facts migration)

/-- The schema that migrations build up, in the order given. -/
def extract (migrations : List Source) : Extraction Schema where
  snapshot := Schema.ofFacts (migrations.flatMap facts)
  diagnostics := migrations.flatMap diagnostics

/-- The log of one migration, given the schema before it. -/
def fileLog (before : Schema) (migration : Source) : List LogLine :=
  let found := facts migration
  let after := found.foldl Schema.record before
  found.filterMap (fun f => f.notice?.bind (·.logLine? migration.name)) ++
    [⟨.debug, "extracted migration", [("file", migration.name),
      ("added_columns", toString (after.columns.columnCount - before.columns.columnCount))]⟩]

/-- The log of migrations from a schema on. -/
def logFrom (before : Schema) : List Source → List LogLine
  | [] => [⟨.debug, "schema snapshot built", [("tables", toString before.columns.size),
      ("foreign_keys", toString before.foreignKeys.length)]⟩]
  | m :: ms => fileLog before m ++ logFrom ((facts m).foldl Schema.record before) ms

/-- The log of an extraction. -/
def log (migrations : List Source) : List LogLine :=
  logFrom {} migrations

end SchemaDrift.Migration
