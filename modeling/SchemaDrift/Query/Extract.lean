import SchemaDrift.Extraction
import SchemaDrift.Query.Event
import SchemaDrift.Snapshot.Basic

/-!
# Reading query modules

Each file is read by itself: its columns are paired with its own tables only, even if another file
bears the same module name. A policy says to which of these tables the use of a column is
attributed: to the one selected last before it, or to every table that the file selects. What the
files of a module use is then joined. A column whose name ends in `_id` and that is compared for
equality is a candidate for a relation.
-/

namespace SchemaDrift

/-! ## Pairing policies -/

/-- To which tables the use of a column is attributed. -/
inductive Pairing
  | nearest
  | crossProduct
deriving DecidableEq

/-- The name of a policy. -/
def Pairing.name : Pairing → String
  | nearest => "nearest"
  | crossProduct => "cross-product"

/-- The name of a policy in the log. -/
def Pairing.logName : Pairing → String
  | nearest => "Nearest"
  | crossProduct => "CrossProduct"

/-- The policy with a name, in any case; the two words may also be joined by an underscore. -/
def Pairing.ofName? (s : String) : Option Pairing :=
  let name := String.ofList (s.toList.map Char.toLower)
  if name = "nearest" then some nearest
  else if name = "cross-product" ∨ name = "cross_product" then some crossProduct
  else none

/-- What is said of a name that no policy has. -/
def Pairing.invalidName (s : String) : String :=
  "Invalid pairing policy '" ++ s ++ "'. Valid policies: nearest, cross-product"

namespace Query

open SchemaDrift.Scan

/-! ## Events of a module -/

/-- The events of a module. -/
def moduleEvents (module : Source) : List Event :=
  events (stripComments .typeScript module.text.toList)

/-- The pairs of tables and columns that events give under a policy. -/
def pairs (pairing : Pairing) (es : List Event) : List (String × String) :=
  match pairing with
  | .nearest => (usesOf es).filterMap fun u => u.1.map (·, u.2.name)
  | .crossProduct => (tablesOf es).flatMap fun t => (usesOf es).map fun u => (t, u.2.name)

/-- Whether a column looks like a join key. -/
def isJoinKey (column : String) : Bool :=
  ['_', 'i', 'd'].isSuffixOf column.toList

/-- A use of a column as a join key: the column, the tables it is attributed to, and the name it is
compared with. -/
structure RelationUse where
  column : String
  tables : SortedSet String
  argument : Option String
deriving DecidableEq

/-- The uses of columns as join keys among events. -/
def relationUses (pairing : Pairing) (es : List Event) : List RelationUse :=
  (usesOf es).filterMap fun u =>
    if u.2.equality && isJoinKey u.2.name then
      some ⟨u.2.name, .ofList (match pairing with
        | .nearest => u.1.toList
        | .crossProduct => tablesOf es), u.2.argument⟩
    else none

/-- The diagnostics of the events of a module: a column used before any table was selected belongs
to none. -/
def eventDiagnostics (pairing : Pairing) (module : String) (es : List Event) : List Diagnostic :=
  match pairing with
  | .crossProduct => []
  | .nearest => (usesOf es).filterMap fun u =>
    match u.1 with
    | some _ => none
    | none => some ⟨module, .unpairedPredicate,
        "column `" ++ u.2.name ++ "` used before any .from(...) call"⟩

/-- The diagnostics of a module. -/
def diagnostics (pairing : Pairing) (module : Source) : List Diagnostic :=
  eventDiagnostics pairing module.name (moduleEvents module)

/-! ## Usage -/

/-- Usage in the making, with relation candidates by module and column. -/
structure Draft where
  modules : SortedMap String ModuleUsage := ∅
  columns : ColumnSet := ∅
  candidates : SortedMap ModuleColumn RelationCandidate := ∅

/-- The draft with the use of a join key in a module. The first name that the column is compared
with is kept. -/
def Draft.addRelation (module : String) (d : Draft) (r : RelationUse) : Draft :=
  { d with candidates := d.candidates.update ⟨module, r.column⟩ fun
      | none => ⟨module, r.column, r.tables, r.argument⟩
      | some c => { c with tables := c.tables.union r.tables, argument := c.argument.or r.argument } }

/-- The draft with the tables and columns that a module mentions. -/
def Draft.addModule (module : String) (es : List Event) (d : Draft) : Draft :=
  { d with modules := d.modules.update module fun old =>
      let m := old.getD {}
      { tables := m.tables.insertMany (tablesOf es)
        columns := m.columns.insertMany ((usesOf es).map (·.2.name)) } }

/-- The draft with the columns of tables that events use. -/
def Draft.addColumns (pairing : Pairing) (es : List Event) (d : Draft) : Draft :=
  let tables := (tablesOf es).foldl ColumnSet.insertTable d.columns
  { d with columns := (pairs pairing es).foldl (fun s p => s.insertColumn p.1 p.2) tables }

/-- The draft with what the events of a module use. -/
def Draft.addEvents (pairing : Pairing) (module : String) (es : List Event) (d : Draft) : Draft :=
  (relationUses pairing es).foldl (Draft.addRelation module)
    ((d.addColumns pairing es).addModule module es)

/-- The draft with what one module uses. -/
def Draft.add (pairing : Pairing) (d : Draft) (module : Source) : Draft :=
  d.addEvents pairing module.name (moduleEvents module)

/-- The usage that a draft amounts to. -/
def Draft.usage (d : Draft) : Usage where
  modules := d.modules
  columns := d.columns
  relationCandidates := d.candidates.values

/-- What modules use, in the order given. -/
def extract (pairing : Pairing) (modules : List Source) : Extraction Usage where
  snapshot := (modules.foldl (Draft.add pairing) {}).usage
  diagnostics := modules.flatMap (diagnostics pairing)

/-- The log of an extraction. -/
def log (modules : List Source) : List LogLine :=
  modules.map fun m =>
    let es := moduleEvents m
    ⟨.debug, "scanned module", [("module", m.name),
      ("tables", toString (SortedSet.ofList (tablesOf es)).size),
      ("columns", toString (SortedSet.ofList ((usesOf es).map (·.2.name))).size)]⟩

end Query

end SchemaDrift
