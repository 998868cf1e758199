import SchemaDrift.Json.Decode
import SchemaDrift.Json.Writer
import SchemaDrift.Snapshot.Basic
import SchemaDrift.Digest.Sha256
import SchemaDrift.Text.Utf8

/-!
# Snapshots as JSON

How snapshots are written and read, and the fingerprint that identifies one: the digest of its
text on one line.
-/

namespace SchemaDrift

open Json (asText? asOptionalText? asTextSet? asList? asMap? asRecord?)

/-- A column set is an object with a list of columns for each table. -/
def ColumnSet.toJson (s : ColumnSet) : Json :=
  .object (s.tables.entries.map fun e => (e.1, .strings e.2.toList))

/-- Reads a column set. -/
def ColumnSet.ofJson? (v : Json) : Option ColumnSet :=
  (asMap? asTextSet? v).map ColumnSet.mk

/-- A foreign key is an object with its four names. -/
def ForeignKey.toJson (fk : ForeignKey) : Json :=
  .object [("source_table", .string fk.sourceTable), ("source_column", .string fk.sourceColumn),
    ("target_table", .string fk.targetTable), ("target_column", .string fk.targetColumn)]

/-- Reads a foreign key. -/
def ForeignKey.ofJson? (v : Json) : Option ForeignKey := do
  match ← asRecord? ["source_table", "source_column", "target_table", "target_column"] v with
  | [some a, some b, some c, some d] =>
    return ⟨← asText? a, ← asText? b, ← asText? c, ← asText? d⟩
  | _ => none

/-- A schema is an object with its columns and its foreign keys. -/
def Schema.toJson (s : Schema) : Json :=
  .object [("columns", s.columns.toJson),
    ("foreign_keys", .array (s.foreignKeys.map ForeignKey.toJson))]

/-- Reads a schema. -/
def Schema.ofJson? (v : Json) : Option Schema := do
  match ← asRecord? ["columns", "foreign_keys"] v with
  | [some columns, some keys] =>
    return ⟨← ColumnSet.ofJson? columns, ← asList? ForeignKey.ofJson? keys⟩
  | _ => none

/-- Declared types are an object with their columns. -/
def RowTypes.toJson (t : RowTypes) : Json :=
  .object [("columns", t.columns.toJson)]

/-- Reads declared types. -/
def RowTypes.ofJson? (v : Json) : Option RowTypes := do
  match ← asRecord? ["columns"] v with
  | [some columns] => return ⟨← ColumnSet.ofJson? columns⟩
  | _ => none

/-- The usage of a module is an object with its tables and columns. -/
def ModuleUsage.toJson (m : ModuleUsage) : Json :=
  .object [("tables", .strings m.tables.toList), ("columns", .strings m.columns.toList)]

/-- Reads the usage of a module. -/
def ModuleUsage.ofJson? (v : Json) : Option ModuleUsage := do
  match ← asRecord? ["tables", "columns"] v with
  | [some tables, some columns] => return ⟨← asTextSet? tables, ← asTextSet? columns⟩
  | _ => none

/-- A relation candidate is an object; its argument is null if there was none. -/
def RelationCandidate.toJson (c : RelationCandidate) : Json :=
  .object [("module", .string c.module), ("column", .string c.column),
    ("tables", .strings c.tables.toList), ("argument", .optional c.argument)]

/-- Reads a relation candidate, in which the argument may be left out. -/
def RelationCandidate.ofJson? (v : Json) : Option RelationCandidate := do
  match ← asRecord? ["module", "column", "tables", "argument"] v with
  | [some module, some column, some tables, argument] =>
    return ⟨← asText? module, ← asText? column, ← asTextSet? tables,
      ← asOptionalText? (argument.getD .null)⟩
  | _ => none

/-- Usage is an object with its modules, its columns and its relation candidates. -/
def Usage.toJson (u : Usage) : Json :=
  .object [("modules", .object (u.modules.entries.map fun e => (e.1, e.2.toJson))),
    ("columns", u.columns.toJson),
    ("relation_candidates", .array (u.relationCandidates.map RelationCandidate.toJson))]

/-- Reads usage. -/
def Usage.ofJson? (v : Json) : Option Usage := do
  match ← asRecord? ["modules", "columns", "relation_candidates"] v with
  | [some modules, some columns, some candidates] =>
    return ⟨← asMap? ModuleUsage.ofJson? modules, ← ColumnSet.ofJson? columns,
      ← asList? RelationCandidate.ofJson? candidates⟩
  | _ => none

/-- The digest of the text of a value on one line. -/
def Json.fingerprint (v : Json) : String :=
  Sha256.hex (Text.utf8 (v.write none))

/-- What identifies a schema. -/
def Schema.fingerprint (s : Schema) : String :=
  s.toJson.fingerprint

/-- What identifies declared types. -/
def RowTypes.fingerprint (t : RowTypes) : String :=
  t.toJson.fingerprint

end SchemaDrift
