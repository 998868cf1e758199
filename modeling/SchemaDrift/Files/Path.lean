/-!
# Paths

A path is kept as the text it was given as, because messages show that text. Its meaning is its
list of parts: repeated and final slashes do not count, and neither does a dot that is not first.
Paths are ordered part by part.
-/

namespace SchemaDrift.Files

/-- The pieces of a text between slashes. -/
def slashPieces : List Char → List (List Char)
  | [] => [[]]
  | c :: s =>
    if c = '/' then [] :: slashPieces s
    else
      match slashPieces s with
      | [] => [[c]]
      | piece :: more => (c :: piece) :: more

/-- The pieces of a path between slashes. -/
def pieces (path : String) : List String :=
  (slashPieces path.toList).map String.ofList

/-- A part of a path. -/
inductive PathPart
  | root
  | here
  | up
  | name (s : String)
deriving DecidableEq

namespace PathPart

/-- The kinds of parts in their order. -/
def rank : PathPart → Nat
  | root => 0
  | here => 1
  | up => 2
  | name _ => 3

/-- The name that a part is, empty for the others. -/
def text : PathPart → String
  | name s => s
  | _ => ""

/-- Parts are ordered by kind, and names among themselves as texts. -/
instance : Ord PathPart where
  compare := compareLex (compareOn rank) (compareOn text)

instance : Std.TransOrd PathPart :=
  inferInstanceAs (Std.TransCmp (compareLex (compareOn rank) (compareOn text)))

instance : Std.LawfulEqOrd PathPart where
  eq_of_compare {a b} h := by
    have h : (compare a.rank b.rank).then (compare a.text b.text) = .eq := h
    rw [Ordering.then_eq_eq, Std.LawfulEqOrd.compare_eq_iff_eq,
      Std.LawfulEqOrd.compare_eq_iff_eq] at h
    cases a <;> cases b <;> simp_all [rank, text]

end PathPart

/-- The part that a piece is behind the first one. -/
def innerPart? (piece : String) : Option PathPart :=
  if piece = "" ∨ piece = "." then none
  else if piece = ".." then some .up
  else some (.name piece)

/-- The parts of a path. -/
def pathParts (path : String) : List PathPart :=
  match pieces path with
  | [] => []
  | first :: more =>
    let start : List PathPart :=
      if first = "" then (if path = "" then [] else [.root])
      else if first = "." then [.here]
      else (innerPart? first).toList
    start ++ more.filterMap innerPart?

/-- The name of the file that a path leads to. -/
def fileName? (parts : List PathPart) : Option String :=
  match parts.getLast? with
  | some (.name s) => some s
  | _ => none

/-- The path of the folder around, if a path is not empty and not the root. -/
def parent? (parts : List PathPart) : Option (List PathPart) :=
  match parts.getLast? with
  | none | some .root => none
  | some _ => some parts.dropLast

/-- A file name up to its last dot, or all of it if nothing stands before that dot. -/
def fileStem (name : String) : String :=
  match ((name.toList.reverse.dropWhile (· ≠ '.')).drop 1).reverse with
  | [] => name
  | stem => String.ofList stem

/-- The module that a file belongs to: the folder around it, or else the file without its
extension. -/
def moduleName (path : String) : String :=
  let parts := pathParts path
  (((parent? parts).bind fileName?).or ((fileName? parts).map fileStem)).getD ""

/-- A path inside another one. -/
def join (dir path : String) : String :=
  if dir = "" ∨ dir.toList.getLast? = some '/' then dir ++ path else dir ++ "/" ++ path

end SchemaDrift.Files
