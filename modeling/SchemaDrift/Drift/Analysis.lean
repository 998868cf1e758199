import SchemaDrift.Drift.Report
import SchemaDrift.Snapshot.Json

/-!
# Comparing the snapshots

Every table that any snapshot names gets an entry in the report. A table that a snapshot does not
name has no columns there.
-/

namespace SchemaDrift

/-- The join keys used on a table that are no foreign keys. -/
def undeclaredRelations (schema : Schema) (usage : Usage) (table : String) :
    SortedSet ModuleColumn :=
  .ofList (((usage.candidatesFor table).filter fun c =>
    !schema.hasForeignKey table c.column).map fun c => ⟨c.module, c.column⟩)

/-- What the comparisons find for a table. -/
def tableDrift (schema : Schema) (types : RowTypes) (usage : Usage) (table : String) :
    TableDrift where
  phantomBackend := (usage.columns.columnsOf table).diff (schema.columns.columnsOf table)
  missingInTypes := (schema.columns.columnsOf table).diff (types.columns.columnsOf table)
  missingInSql := (types.columns.columnsOf table).diff (schema.columns.columnsOf table)
  undeclaredRelations := undeclaredRelations schema usage table

/-- The tables that any of the snapshots names. -/
def namedTables (schema : Schema) (types : RowTypes) (usage : Usage) : SortedSet String :=
  (schema.columns.tableNames.union types.columns.tableNames).union usage.columns.tableNames

/-- The report on three snapshots. -/
def analyze (schema : Schema) (types : RowTypes) (usage : Usage) : DriftReport where
  tables := .ofSet (tableDrift schema types usage) (namedTables schema types usage)
  foreignKeys := schema.foreignKeys
  relationCandidates := usage.relationCandidates.length
  schemaFingerprint := schema.fingerprint
  typesFingerprint := types.fingerprint

end SchemaDrift
