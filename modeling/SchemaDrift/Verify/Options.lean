import SchemaDrift.Drift.Check
import SchemaDrift.Files.Path
import SchemaDrift.Query.Extract
import SchemaDrift.Text.Quoted

/-!
# Options of a run

Where the three inputs are, how columns are paired with tables, which tables are reported and which
comparisons are made.
-/

namespace SchemaDrift

/-- What a run is asked to do. -/
structure Options where
  migrationsDir : String := "supabase/migrations"
  typesFile : String := "src/types/database.types.ts"
  modulesDir : String := "src/lib/supabase/modules"
  moduleFile : String := "index.ts"
  pairing : Pairing := .nearest
  includeTables : List String := []
  excludeTables : List String := []
  check : Check := .all
deriving DecidableEq

namespace Options

/-- The usual locations below a project's folder. -/
def inProject (root : String) : Options :=
  let usual : Options := {}
  { migrationsDir := Files.join root usual.migrationsDir
    typesFile := Files.join root usual.typesFile
    modulesDir := Files.join root usual.modulesDir }

/-- Options as the log shows them. -/
def logText (o : Options) : String :=
  "VerifyOptions \x7b migrations_dir: " ++ Text.quoted o.migrationsDir ++
    ", types_file: " ++ Text.quoted o.typesFile ++
    ", modules_dir: " ++ Text.quoted o.modulesDir ++
    ", module_file_name: " ++ Text.quoted o.moduleFile ++
    ", pairing: " ++ o.pairing.logName ++
    ", include_tables: " ++ Text.quotedList o.includeTables ++
    ", exclude_tables: " ++ Text.quotedList o.excludeTables ++
    ", check: " ++ o.check.logName ++ " \x7d"

end Options

end SchemaDrift
