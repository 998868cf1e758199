import SchemaDrift.Query.Extract

/-!
# Values of options

Options that take a value may be given before the subcommand and behind it. Each of these two
levels keeps what was given there; a value is checked when it is added, and an option with one value
is given once.
-/

namespace SchemaDrift.Command

/-- How a report is written. -/
inductive OutputFormat
  | text
  | json
deriving DecidableEq

/-- The format with a name. -/
def OutputFormat.ofName? (s : String) : Option OutputFormat :=
  if s = "text" then some .text
  else if s = "json" then some .json
  else none

/-- The options that take a value. -/
inductive ValueOption
  | migrations
  | types
  | modules
  | moduleFile
  | pairing
  | table
  | excludeTable
  | format
deriving DecidableEq

namespace ValueOption

/-- All options that take a value. -/
def all : List ValueOption :=
  [migrations, types, modules, moduleFile, pairing, table, excludeTable, format]

/-- The name that an option is given by, behind two hyphens. -/
def name : ValueOption → String
  | migrations => "migrations"
  | types => "types"
  | modules => "modules"
  | moduleFile => "module-file"
  | pairing => "pairing"
  | table => "table"
  | excludeTable => "exclude-table"
  | format => "format"

/-- The option with a name. -/
def ofName? (s : String) : Option ValueOption :=
  all.find? (·.name = s)

end ValueOption

/-- Why a command line starts no run. -/
inductive Stop
  | invalid
  | help
  | version
deriving DecidableEq

/-- What one level of a command line gives. -/
structure Given where
  migrations : Option String := none
  types : Option String := none
  modules : Option String := none
  moduleFile : Option String := none
  pairing : Option Pairing := none
  format : Option OutputFormat := none
  tables : List String := []
  excludeTables : List String := []
  verbosity : Nat := 0
deriving DecidableEq

/-- A value for an option that has none yet. -/
def once {α : Type} (old new : Option α) : Except Stop (Option α) :=
  if old.isNone ∧ new.isSome then .ok new else .error .invalid

/-- A path as an option takes it: not empty. -/
def pathValue? (s : String) : Option String :=
  if s = "" then none else some s

namespace Given

/-- What is given with one more value. -/
def add (g : Given) (o : ValueOption) (value : String) : Except Stop Given :=
  match o with
  | .migrations => (once g.migrations (pathValue? value)).map ({ g with migrations := · })
  | .types => (once g.types (pathValue? value)).map ({ g with types := · })
  | .modules => (once g.modules (pathValue? value)).map ({ g with modules := · })
  | .moduleFile => (once g.moduleFile (some value)).map ({ g with moduleFile := · })
  | .pairing => (once g.pairing (Pairing.ofName? value)).map ({ g with pairing := · })
  | .format => (once g.format (OutputFormat.ofName? value)).map ({ g with format := · })
  | .table => .ok { g with tables := g.tables ++ [value] }
  | .excludeTable => .ok { g with excludeTables := g.excludeTables ++ [value] }

/-- What two levels give together: what the second one gives, and else what the first one gives. A
list is taken from one level as a whole. -/
def override (outer inner : Given) : Given where
  migrations := inner.migrations.or outer.migrations
  types := inner.types.or outer.types
  modules := inner.modules.or outer.modules
  moduleFile := inner.moduleFile.or outer.moduleFile
  pairing := inner.pairing.or outer.pairing
  format := inner.format.or outer.format
  tables := if inner.tables.isEmpty then outer.tables else inner.tables
  excludeTables := if inner.excludeTables.isEmpty then outer.excludeTables else inner.excludeTables
  verbosity := if inner.verbosity = 0 then outer.verbosity else inner.verbosity

end Given

end SchemaDrift.Command
