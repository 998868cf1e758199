import SchemaDrift.Extraction
import SchemaDrift.Fault
import SchemaDrift.Files.Search
import SchemaDrift.Text.Utf8

/-!
# Loading inputs

The three inputs of a run are read from a file tree: the migrations directly inside a folder, one
type file, and the query modules at any depth below a folder. A folder is searched by a pattern that
names it. Bytes that are no text are replaced, with a warning.
-/

namespace SchemaDrift.Files

/-- Sources with the log lines that loading them gave. -/
structure Loaded where
  sources : List Source := []
  log : List LogLine := []
deriving DecidableEq

/-- The warning on a file that is no text, if it is none. -/
def textWarning (path : String) (bytes : List UInt8) : List LogLine :=
  if (Text.decode? bytes).isSome then []
  else
    [{ level := .warn
       message := "not valid UTF-8, invalid bytes replaced"
       fields := [("file", path)] }]

/-- The source that a file is. -/
def readSource (name : String) (bytes : List UInt8) : Source :=
  ⟨name, String.ofList (Text.decodeLossy bytes)⟩

/-- The name of a file, or its whole path if it has none. -/
def sourceName (path : String) : String :=
  (fileName? (pathParts path)).getD path

/-- The sources that found files are, each named from its path, with a warning if there is none. -/
def loadFound (name : String → String) (missing : LogLine) (files : List (Place × List UInt8)) :
    Loaded where
  sources := files.map fun f => readSource (name f.1.path) f.2
  log := (if files.isEmpty then [missing] else []) ++
    files.flatMap fun f => textWarning f.1.path f.2

/-- The pattern of a search: the path of a folder, taken as it is, and what to look for there. -/
def searchPattern (dir tail : String) : String :=
  trimSlashes (Wildcard.escape dir) ++ "/" ++ tail

/-- The files that a search finds. A search whose pattern is none is a fault. -/
def searched (t : FileTree) (pattern : String) : Except Fault (List (Place × List UInt8)) :=
  (search t pattern).mapError fun e => .invalidPattern pattern e.message

/-- The migrations of a folder, in the order of their names. -/
def loadMigrations (t : FileTree) (dir : String) : Except Fault Loaded :=
  if t.hasFolder dir then
    (searched t (searchPattern dir "*.sql")).map
      (loadFound sourceName
        { level := .warn, message := "no migration files found", fields := [("dir", dir)] })
  else .error (.missingInput .migrations dir)

/-- The type file at a path, with the log lines that loading it gave. -/
def loadTypes (t : FileTree) (path : String) : Except Fault (Source × List LogLine) :=
  match (t.resolve? path).bind t.content? with
  | some bytes => .ok (readSource (sourceName path) bytes, textWarning path bytes)
  | none => .error (.missingInput .types path)

/-- The query modules below a folder, in the order of their paths. -/
def loadModules (t : FileTree) (dir leaf : String) : Except Fault Loaded :=
  if t.hasFolder dir then
    (searched t (searchPattern dir ("**/" ++ Wildcard.escape leaf))).map
      (loadFound moduleName
        { level := .warn
          message := "no module files found"
          fields := [("dir", dir), ("leaf", Text.quoted leaf)] })
  else .error (.missingInput .modules dir)

end SchemaDrift.Files
