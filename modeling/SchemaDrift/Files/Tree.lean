import SchemaDrift.Collection.SortedMap
import SchemaDrift.Files.Path

/-!
# File trees

A file tree says for every place whether a file or a folder stands there. A place is a list of
names, read from the working directory: `..` at its start leads above that directory, and `/` at its
start is the root of all. The working directory, the folders above it and the root always exist.
`FileTree.resolve?` follows a path, and `FileTree.addFile` and `FileTree.addFolder` make what a path
names, with every folder on the way.
-/

namespace SchemaDrift.Files

/-- What stands at a place of a file tree. -/
inductive Entry
  | file (bytes : List UInt8)
  | folder
deriving DecidableEq

/-- The root of all places. -/
def rootNames : List String := ["/"]

/-- Whether a place exists in every tree: it is the working directory, above it, or the root. -/
def isFixed (names : List String) : Bool :=
  names = rootNames || names.all (· = "..")

/-- The place of the folder around. The root is its own. -/
def outerNames (names : List String) : List String :=
  if names = rootNames then rootNames
  else if isFixed names then names ++ [".."]
  else names.dropLast

/-- A tree of files. -/
structure FileTree where
  entries : SortedMap (List String) Entry := ∅
deriving DecidableEq

namespace FileTree

/-- What stands at a list of names. -/
def entry? (t : FileTree) (names : List String) : Option Entry :=
  if isFixed names then some .folder else t.entries.get? names

/-- Whether a folder stands at a list of names. -/
def isFolder (t : FileTree) (names : List String) : Bool :=
  t.entry? names = some .folder

/-- The content of the file at a list of names. -/
def content? (t : FileTree) (names : List String) : Option (List UInt8) :=
  match t.entry? names with
  | some (.file bytes) => some bytes
  | _ => none

/-- Where a piece of a path leads from a list of names, which must be a folder. -/
def step (t : FileTree) (names : List String) (piece : String) : Option (List String) :=
  if !t.isFolder names then none
  else if piece = "" ∨ piece = "." then some names
  else if piece = ".." then some (outerNames names)
  else if (t.entry? (names ++ [piece])).isSome then some (names ++ [piece])
  else none

/-- Where a path leads, if it leads to something in the tree. -/
def resolve? (t : FileTree) (path : String) : Option (List String) :=
  if path = "" then none
  else (pieces path).foldlM t.step (if path.toList.head? = some '/' then rootNames else [])

/-- Whether a path leads to a folder. -/
def hasFolder (t : FileTree) (path : String) : Bool :=
  (t.resolve? path).any t.isFolder

/-- The tree with a folder at every name that the parts of a path lead through from a list of names,
and the place where they end. -/
def makeFolders (t : FileTree) : (names : List String) → List PathPart → FileTree × List String
  | names, [] => (t, names)
  | _, .root :: parts => t.makeFolders rootNames parts
  | names, .here :: parts => t.makeFolders names parts
  | names, .up :: parts => t.makeFolders (outerNames names) parts
  | names, .name s :: parts =>
    makeFolders { entries := t.entries.insert (names ++ [s]) .folder } (names ++ [s]) parts

/-- The tree with the folder that a path names and every folder on the way. -/
def addFolder (t : FileTree) (path : String) : FileTree :=
  (t.makeFolders [] (pathParts path)).1

/-- The tree with the file that a path names and every folder on the way. A path that does not end
in a name is no file's. -/
def addFile (t : FileTree) (path : String) (bytes : List UInt8) : FileTree :=
  match fileName? (pathParts path) with
  | none => t
  | some name =>
    let (t, names) := t.makeFolders [] (pathParts path).dropLast
    { entries := t.entries.insert (names ++ [name]) (.file bytes) }

end FileTree

end SchemaDrift.Files
