import SchemaDrift.Files.Tree
import SchemaDrift.Wildcard.Match

/-!
# Searching a file tree

A search has a pattern. It starts at the working directory, or at the root, and follows the pattern
component by component, keeping the path text that it has walked, since messages and module names
come from that text. What it finds is sorted part by part.
-/

namespace SchemaDrift.Files

/-- A place in a file tree with the path that was walked to it. -/
structure Place where
  path : String
  names : List String
deriving DecidableEq

namespace Place

/-- The working directory. -/
def start : Place := ⟨".", []⟩

/-- The root of all places. -/
def root : Place := ⟨"/", rootNames⟩

/-- The path of something inside a place. The working directory is left out of it. -/
def inside (p : Place) (piece : String) : String :=
  if p.path = "." then piece else join p.path piece

/-- The place that a piece of a path leads to. An empty path leads nowhere. -/
def walk (t : FileTree) (p : Place) (piece : String) : Option Place :=
  if p.path = "." ∧ piece = "" then none
  else (t.step p.names piece).map fun names => ⟨p.inside piece, names⟩

/-- The place at names further down. -/
def below (p : Place) (names : List String) : Place :=
  ⟨names.foldl (fun path n => if path = "." then n else join path n) p.path, p.names ++ names⟩

end Place

/-- A path without the slashes at its end. -/
def trimSlashes (path : String) : String :=
  String.ofList (path.toList.reverse.dropWhile (· = '/')).reverse

/-- The names behind a list of names that the first list starts with. -/
def namesBelow? : (base names : List String) → Option (List String)
  | [], names => some names
  | b :: base, n :: names => if b = n then namesBelow? base names else none
  | _ :: _, [] => none

/-- All that stands below a place, as lists of names from there. What is reached only from above the
working directory or from the root is not below it. -/
def contents (t : FileTree) (p : Place) : List (List String) :=
  t.entries.entries.filterMap fun e =>
    (namesBelow? p.names e.1).filter fun names => names.head?.any fun n => n ≠ ".." ∧ n ≠ "/"

/-- The name in a list of one name. -/
def onlyName? : List String → Option String
  | [n] => some n
  | _ => none

/-- The names of all that stands directly inside a place. -/
def namesInside (t : FileTree) (p : Place) : List String :=
  (contents t p).filterMap onlyName?

/-- The places that hold files, with their contents, in the order of their paths. -/
def sortedFiles (t : FileTree) (found : List Place) : List (Place × List UInt8) :=
  let files := found.filterMap fun p => (t.content? p.names).map fun bytes => (p, bytes)
  files.mergeSort fun a b => (compare (pathParts a.1.path) (pathParts b.1.path)).isLE

/-! ## Searching by patterns -/

/-- What stands directly inside a folder and has a name that a pattern accepts. -/
def acceptedInside (t : FileTree) (p : Place) (c : Wildcard.Pattern) : List Place :=
  if t.isFolder p.names then ((namesInside t p).filter c.accepts).map fun n => p.below [n] else []

/-- Where a component of a pattern leads from a place. One without wildcards is followed like a piece
of a path, and any other is matched with the names there. -/
def advance (t : FileTree) (p : Place) (c : Wildcard.Pattern) : List Place :=
  match c.plainText? with
  | some piece => (p.walk t piece).toList
  | none => acceptedInside t p c

/-- The places that the components of a pattern lead to from a place. Behind a wildcard for
directories the next component is matched at any depth, and at the end of a pattern such a wildcard
finds all folders. -/
def find (t : FileTree) : (deep : Bool) → List Wildcard.Pattern → Place → List Place
  | false, [], p => [p]
  | true, [], p => ((contents t p).map p.below).filter fun q => t.isFolder q.names
  | false, c :: cs, p =>
    if c.isRecursive then (if t.isFolder p.names then find t true cs p else [])
    else (advance t p c).flatMap (find t false cs)
  | true, c :: cs, p =>
    if c.isRecursive then find t true cs p
    else
      ((contents t p).filter fun names => names.getLast?.any c.accepts).flatMap fun names =>
        find t false cs (p.below names)

/-- Pieces of a pattern, where a slash at the end of the last one does not begin another. -/
def closedPieces : List String → List String
  | [piece, ""] => [piece]
  | piece :: more => piece :: closedPieces more
  | [] => []

/-- Where the search for a pattern begins, and the pieces between the slashes of the pattern. -/
def searchStart (pattern : String) : Place × List String :=
  match pieces pattern with
  | "" :: next :: more => (.root, closedPieces (next :: more))
  | walked => (.start, closedPieces walked)

/-- The files that a pattern leads to, with their contents, in the order of their paths. A pattern
that ends in a slash leads to folders alone. -/
def search (t : FileTree) (pattern : String) :
    Except Wildcard.PatternError (List (Place × List UInt8)) := do
  let _ ← Wildcard.Pattern.ofText pattern
  let components ← (searchStart pattern).2.mapM Wildcard.Pattern.ofText
  let found := find t false components (searchStart pattern).1
  pure (sortedFiles t <| found.filter fun p =>
    pattern.toList.getLast? ≠ some '/' || t.isFolder p.names)

end SchemaDrift.Files
