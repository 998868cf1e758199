import SchemaDrift.Extraction
import SchemaDrift.Snapshot.Basic

/-!
# Facts of a migration

What a migration says, in order: tables, columns and foreign keys that it defines, and notices of
what was passed over. A schema is what the facts of its history add up to; nothing that was
recorded is ever taken back, and a foreign key is recorded once.
-/

namespace SchemaDrift.Migration

/-- Something in a migration that defines nothing. Clauses and actions are abbreviated. -/
inductive Notice
  | unbalancedBody (table : String)
  | unreadClause (table clause : String)
  | ignoredAction (table action : String)
  | skippedAction (table action : String)
  | ignoredDrop (table : String)
  | sourcelessReference (target : String)
  | orphanReference (column targetTable targetColumn : String)
deriving DecidableEq

/-- What a migration says. -/
inductive Fact
  | table (name : String)
  | column (table name : String)
  | foreignKey (key : ForeignKey)
  | notice (n : Notice)
deriving DecidableEq

/-- The diagnostic of a notice, unless it is only logged. -/
def Notice.diagnostic? (source : String) : Notice → Option Diagnostic
  | unbalancedBody table => some ⟨source, .parseSkip,
      "CREATE TABLE " ++ table ++ ": unbalanced parentheses, body skipped"⟩
  | unreadClause table clause => some ⟨source, .parseSkip,
      table ++ ": unrecognized clause `" ++ clause ++ "`"⟩
  | ignoredAction table action => some ⟨source, .unsupportedStatement,
      "ALTER TABLE " ++ table ++ " " ++ action ++ ": ignored"⟩
  | skippedAction _ _ => none
  | ignoredDrop table => some ⟨source, .unsupportedStatement,
      "DROP TABLE " ++ table ++ ": ignored, recorded columns are kept"⟩
  | sourcelessReference target => some ⟨source, .parseSkip,
      "REFERENCES " ++ target ++ ": no source column"⟩
  | orphanReference column table target => some ⟨source, .orphanReference,
      column ++ " REFERENCES " ++ table ++ "(" ++ target ++
        "): no preceding CREATE TABLE, edge dropped"⟩

/-- The log line of a notice, unless its diagnostic is all there is to say. -/
def Notice.logLine? (source : String) : Notice → Option LogLine
  | ignoredAction table action => some ⟨.warn,
      "ignoring `" ++ action ++ "`: columns are never removed or renamed in the snapshot",
      [("file", source), ("table", Text.quoted table)]⟩
  | skippedAction table action => some ⟨.debug, "skipping `" ++ action ++ "`",
      [("file", source), ("table", Text.quoted table)]⟩
  | ignoredDrop table => some ⟨.warn, "ignoring DROP TABLE", [("file", source), ("table", table)]⟩
  | orphanReference column table target => some ⟨.warn,
      "REFERENCES " ++ table ++ "(" ++ target ++ ") has no preceding CREATE TABLE",
      [("file", source), ("column", column)]⟩
  | unbalancedBody _ | unreadClause _ _ | sourcelessReference _ => none

/-- The notice that a fact is. -/
def Fact.notice? : Fact → Option Notice
  | notice n => some n
  | _ => none

end Migration

/-- The schema with a foreign key recorded, unless it was. -/
def Schema.addForeignKey (s : Schema) (key : ForeignKey) : Schema :=
  if key ∈ s.foreignKeys then s else { s with foreignKeys := s.foreignKeys ++ [key] }

/-- The schema after one more fact. -/
def Schema.record (s : Schema) : Migration.Fact → Schema
  | .table name => { s with columns := s.columns.insertTable name }
  | .column table name => { s with columns := s.columns.insertColumn table name }
  | .foreignKey key => s.addForeignKey key
  | .notice _ => s

/-- The schema that facts add up to. -/
def Schema.ofFacts (facts : List Migration.Fact) : Schema :=
  facts.foldl Schema.record {}

end SchemaDrift
