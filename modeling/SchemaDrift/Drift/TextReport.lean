import SchemaDrift.Drift.Check
import SchemaDrift.Number.Rounding

/-!
# The report as text

The text of a report, line by line. Tables, columns and relations come in order, and foreign keys
in groups by their table, so the text depends on the contents of the report alone.
-/

namespace SchemaDrift

/-- The title of the section on a comparison. -/
def Comparison.title : Comparison → String
  | sync => "Schema ↔ types synchronization"
  | usage => "Backend usage ↔ schema"
  | relations => "Relations"

/-- What the score of a comparison is called. -/
def Comparison.scoreLabel : Comparison → String
  | sync => "Sync score"
  | usage => "Cleanliness score"
  | relations => "Relation score"

/-- The foreign keys by the table they start at, each group in order. -/
def groupForeignKeys (keys : List ForeignKey) : SortedMap String (List ForeignKey) :=
  (keys.foldl (fun m fk => m.update fk.sourceTable fun group => group.getD [] ++ [fk])
    SortedMap.empty).mapValues fun group => group.mergeSort fun a b => (compare a b).isLE

namespace DriftReport

/-- The lines that sum up a comparison. -/
def summaryLines (r : DriftReport) (c : Comparison) (clean dirty : String) : List String :=
  let s := r.summary c
  ["  Tables analyzed: " ++ toString s.total, "  ✓ " ++ clean ++ ": " ++ toString s.clean,
    "  ✗ " ++ dirty ++ ": " ++ toString s.dirty, ""]

/-- A block of lines under a heading with an empty line behind it; nothing if there is none. -/
def block (heading : String) (lines : List String) : List String :=
  if lines.isEmpty then [] else heading :: lines ++ [""]

/-- The tables that a comparison found clean. -/
def cleanTables (r : DriftReport) (c : Comparison) : List String :=
  (r.tables.entries.filter fun e => e.2.isClean c).map (·.1)

/-- The tables for which a comparison found something. -/
def dirtyTables (r : DriftReport) (c : Comparison) : List (String × TableDrift) :=
  r.tables.entries.filter fun e => !e.2.isClean c

/-- The block of the clean tables. -/
def cleanLines (r : DriftReport) (c : Comparison) : List String :=
  block "Clean tables:" ((r.cleanTables c).map ("  ✓ " ++ ·))

/-- Columns under a label; nothing if there are none. -/
def columnLines (label : String) (columns : SortedSet String) : List String :=
  if columns.isEmpty then []
  else ("    " ++ label ++ ":") :: columns.toList.map ("      - " ++ ·)

/-- The section on schema and types. -/
def syncLines (r : DriftReport) : List String :=
  r.summaryLines .sync "Synchronized" "With drift" ++ r.cleanLines .sync ++
    block "Drift detected:" ((r.dirtyTables .sync).flatMap fun e =>
      ("  Table: " ++ e.1) :: columnLines "Missing in types" e.2.missingInTypes ++
        columnLines "Missing in SQL" e.2.missingInSql)

/-- The section on columns in use. -/
def usageLines (r : DriftReport) : List String :=
  r.summaryLines .usage "Clean" "With phantom columns" ++ r.cleanLines .usage ++
    block "Phantom columns (used by modules, absent from the schema):"
      ((r.dirtyTables .usage).flatMap fun e =>
        ("  Table: " ++ e.1) :: columnLines "Phantom" e.2.phantomBackend)

/-- The line of a foreign key in its group. -/
def foreignKeyLine (fk : ForeignKey) : String :=
  "    " ++ fk.sourceColumn ++ " → " ++ fk.targetTable ++ "." ++ fk.targetColumn

/-- The line of a join key that is no foreign key. -/
def undeclaredLine (table : String) (m : ModuleColumn) : String :=
  "  ⚠ " ++ table ++ "." ++ m.column ++ " used as a join key in module " ++ m.module ++
    " without a foreign key"

/-- The section on relations. -/
def relationLines (r : DriftReport) : List String :=
  r.summaryLines .relations "All relations declared" "With undeclared relations" ++
    ["  Foreign keys declared: " ++ toString r.foreignKeys.length,
      "  Relations used by modules: " ++ toString r.relationCandidates, ""] ++
    block "Declared foreign keys:" ((groupForeignKeys r.foreignKeys).entries.flatMap fun e =>
      ("  Table: " ++ e.1) :: e.2.map foreignKeyLine) ++
    block "Undeclared relations (advisory):" ((r.dirtyTables .relations).flatMap fun e =>
      e.2.undeclaredRelations.toList.map (undeclaredLine e.1))

/-- The section on a comparison, with the score if it is more than advice. -/
def sectionLines (r : DriftReport) (c : Comparison) : List String :=
  ("== " ++ c.title ++ " ==") ::
    (match c with
      | .sync => r.syncLines
      | .usage => r.usageLines
      | .relations => r.relationLines) ++
    if c.isAdvisory then []
    else [c.scoreLabel ++ ": " ++ Number.oneDecimal (r.summary c).score ++ "%", ""]

/-- The lines before the sections. -/
def headLines (r : DriftReport) (k : Check) : List String :=
  ["=== driftcheck ===", "Check: " ++ k.name, "Schema fingerprint: " ++ r.schemaFingerprint] ++
    (if k.needsTypes then ["Types fingerprint: " ++ r.typesFingerprint] else []) ++ [""]

/-- The last line: the verdict. -/
def verdictLine (r : DriftReport) (k : Check) : String :=
  match r.status k with
  | .clean => "Result: PASS"
  | _ => "Result: FAIL (" ++ toString (r.failingIssues k) ++ " issue(s))"

/-- The lines of a report. -/
def textLines (r : DriftReport) (k : Check) : List String :=
  r.headLines k ++ k.comparisons.flatMap r.sectionLines ++ [r.verdictLine k]

/-- The text of a report. -/
def renderText (r : DriftReport) (k : Check) : String :=
  String.join ((r.textLines k).map (· ++ "\n"))

end DriftReport

end SchemaDrift
