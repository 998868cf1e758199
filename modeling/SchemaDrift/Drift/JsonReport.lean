import SchemaDrift.Drift.Check
import SchemaDrift.Snapshot.Json

/-!
# The report as JSON

How a report is written and read, and the form in which a run presents it: with the check, the
verdict and a summary of every selected comparison before the report's own fields.
-/

namespace SchemaDrift

open Json (asText? asCount? asTextSet? asList? asMap? asRecord?)

/-- A column of a module is an object with both names. -/
def ModuleColumn.toJson (m : ModuleColumn) : Json :=
  .object [("module", .string m.module), ("column", .string m.column)]

/-- Reads a column of a module. -/
def ModuleColumn.ofJson? (v : Json) : Option ModuleColumn := do
  match ← asRecord? ["module", "column"] v with
  | [some module, some column] => return ⟨← asText? module, ← asText? column⟩
  | _ => none

/-- The drift of a table is an object with the findings. -/
def TableDrift.toJson (d : TableDrift) : Json :=
  .object [("phantom_backend", .strings d.phantomBackend.toList),
    ("missing_in_types", .strings d.missingInTypes.toList),
    ("missing_in_sql", .strings d.missingInSql.toList),
    ("undeclared_relations", .array (d.undeclaredRelations.toList.map ModuleColumn.toJson))]

/-- Reads the drift of a table. -/
def TableDrift.ofJson? (v : Json) : Option TableDrift := do
  match ← asRecord? ["phantom_backend", "missing_in_types", "missing_in_sql",
      "undeclared_relations"] v with
  | [some phantom, some types, some sql, some relations] =>
    return ⟨← asTextSet? phantom, ← asTextSet? types, ← asTextSet? sql,
      .ofList (← asList? ModuleColumn.ofJson? relations)⟩
  | _ => none

namespace DriftReport

/-- The members of the object that a report is. -/
def members (r : DriftReport) : List (String × Json) :=
  [("tables", .object (r.tables.entries.map fun e => (e.1, e.2.toJson))),
    ("foreign_keys", .array (r.foreignKeys.map ForeignKey.toJson)),
    ("relation_candidates", .nat r.relationCandidates),
    ("schema_fingerprint", .string r.schemaFingerprint),
    ("types_fingerprint", .string r.typesFingerprint)]

/-- A report is an object. -/
def toJson (r : DriftReport) : Json :=
  .object r.members

/-- Reads a report. -/
def ofJson? (v : Json) : Option DriftReport := do
  match ← asRecord? ["tables", "foreign_keys", "relation_candidates", "schema_fingerprint",
      "types_fingerprint"] v with
  | [some tables, some keys, some candidates, some schema, some types] =>
    return ⟨← asMap? TableDrift.ofJson? tables, ← asList? ForeignKey.ofJson? keys,
      ← asCount? candidates, ← asText? schema, ← asText? types⟩
  | _ => none

/-- The summary of a comparison. -/
def summaryMember (r : DriftReport) (c : Comparison) : String × Json :=
  let s := r.summary c
  (c.name, .object [("total", .nat s.total), ("clean", .nat s.clean), ("dirty", .nat s.dirty)])

/-- A report as a run presents it. -/
def presented (r : DriftReport) (k : Check) : Json :=
  .object ([("check", .string k.name), ("passed", .bool (r.failingIssues k == 0)),
    ("issues", .nat (r.failingIssues k)),
    ("summaries", .object (k.comparisons.map r.summaryMember))] ++ r.members)

/-- The JSON text of a report. -/
def renderJson (r : DriftReport) (k : Check) : String :=
  (r.presented k).pretty

end DriftReport

end SchemaDrift
