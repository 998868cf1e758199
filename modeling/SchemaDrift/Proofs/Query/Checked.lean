import SchemaDrift.Proofs.Scan.Checked
import SchemaDrift.Query.Extract

/-!
# Reading query modules in checked steps

Query modules are read once more in checked steps: comments are blanked byte by byte, and the text
of several comparisons is split at the byte of a comma. No step fails, and the usage is the one that
is read by characters (`checkedExtract_eq`).
-/

namespace SchemaDrift.Query

open SchemaDrift.Text SchemaDrift.Scan

/-! ## Events -/

/-- The columns that several comparisons in one text use, in checked steps. -/
def checkedComparedColumns (filters : List Char) : Option (List (List Char)) :=
  (commaParts? .typeScript filters).map fun parts =>
    parts.filterMap fun part => (comparedColumn.best? (trim part)).map (·.1)

/-- No step fails on the text of several comparisons, and the columns are those of the reading by
characters. -/
theorem checkedComparedColumns_eq (filters : List Char) :
    checkedComparedColumns filters = some (comparedColumns filters) := by
  rw [checkedComparedColumns, commaParts?_eq, Option.map_some, comparedColumns]

/-- The columns used by calls that give several comparisons, in checked steps. -/
def checkedOrEvents (text : List Char) : Option (List (Nat × Event)) :=
  gather? (fun o => (checkedComparedColumns o.value).map fun columns =>
      columns.map fun column => (o.start, .column ⟨String.ofList column, false, none⟩))
    (occurrences (fun _ => orCall) text)

/-- No step fails on calls that give several comparisons, and the events are those of the reading by
characters. -/
theorem checkedOrEvents_eq (text : List Char) : checkedOrEvents text = some (orEvents text) :=
  gather?_eq_some fun o _ => by rw [checkedComparedColumns_eq, Option.map_some]

/-- The events in a text without comments, in checked steps. -/
def checkedEvents (text : List Char) : Option (List Event) :=
  (checkedOrEvents text).map fun ors => inOrder (tableEvents text ++ predicateEvents text ++ ors)

/-- The events of a module, in checked steps. Its bytes with the comments blanked have to be those
of a text. -/
def checkedModuleEvents (module : Source) : Option (List Event) :=
  (ofByteSymbols? (blankedBytes .typeScript module.text)).bind fun text =>
    checkedEvents text.toList

/-- No step fails on a module, and the events are those of the reading by characters. -/
theorem checkedModuleEvents_eq (module : Source) :
    checkedModuleEvents module = some (moduleEvents module) := by
  rw [checkedModuleEvents, blankedBytes_eq, ofByteSymbols?_symbols, Option.bind_some,
    String.toList_ofList, checkedEvents, checkedOrEvents_eq, Option.map_some]
  rfl

/-! ## Whole modules -/

/-- What modules use, in checked steps. -/
def checkedExtract (pairing : Pairing) (modules : List Source) : Option (Extraction Usage) :=
  (modules.mapM fun m => (checkedModuleEvents m).map (m.name, ·)).map fun found =>
    { snapshot := (found.foldl (fun (d : Draft) m => d.addEvents pairing m.1 m.2) {}).usage
      diagnostics := found.flatMap fun m => eventDiagnostics pairing m.1 m.2 }

/-- No step fails on query modules, and the usage is that of the reading by characters. -/
theorem checkedExtract_eq (pairing : Pairing) (modules : List Source) :
    checkedExtract pairing modules = some (extract pairing modules) := by
  have hfound : (modules.mapM fun m => (checkedModuleEvents m).map (m.name, ·)) =
      some (modules.map fun m => (m.name, moduleEvents m)) :=
    mapM_eq_some fun m _ => by rw [checkedModuleEvents_eq, Option.map_some]
  rw [checkedExtract, hfound, Option.map_some, List.foldl_map, List.flatMap_map]
  rfl

end SchemaDrift.Query
