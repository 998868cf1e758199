import SchemaDrift.Scan.Piece

/-!
# Brackets, separators and statements

What a bracket encloses, the parts of a text between separators outside every bracket, and the
statement up to the next semicolon outside every bracket. Symbols inside literals never count.
-/

namespace SchemaDrift.Scan

/-- Whether a symbol opens a bracket. -/
def isOpener (c : Char) : Bool :=
  c == '(' || c == '[' || c == '{'

/-- Whether a symbol closes a bracket. -/
def isCloser (c : Char) : Bool :=
  c == ')' || c == ']' || c == '}'

/-- The symbol that closes what an opening bracket opens. -/
def closerOf? (c : Char) : Option Char :=
  if c = '(' then some ')' else if c = '[' then some ']' else if c = '{' then some '}' else none

/-- The text before the closing bracket that ends `depth` more brackets than are open. Only the one
kind of bracket counts. -/
def enclosedIn (opener closer : Char) : (depth : Nat) → List Piece → Option (List Char)
  | _, [] => none
  | depth, .code c :: ps =>
    if c = opener then (enclosedIn opener closer (depth + 1) ps).map (c :: ·)
    else if c = closer then
      match depth with
      | 0 => some []
      | depth + 1 => (enclosedIn opener closer depth ps).map (c :: ·)
    else (enclosedIn opener closer depth ps).map (c :: ·)
  | depth, p :: ps => (enclosedIn opener closer depth ps).map (p.text ++ ·)

/-- The text inside the bracket that a text begins with. -/
def enclosed? (d : Dialect) : List Char → Option (List Char)
  | [] => none
  | c :: s => (closerOf? c).bind fun closer => enclosedIn c closer 0 (codePieces d s)

/-- How a symbol of code changes the number of open brackets; a stray closing bracket leaves it at
zero. -/
def depthAfter (depth : Nat) (c : Char) : Nat :=
  if isOpener c then depth + 1 else if isCloser c then depth - 1 else depth

/-- Whether a symbol of code separates parts: brackets never do. -/
def separates (sep : Char) (depth : Nat) (c : Char) : Bool :=
  !isOpener c && !isCloser c && c == sep && depth == 0

/-- The first part of a text and the later ones. -/
def splitPieces (sep : Char) : (depth : Nat) → List Piece → List Char × List (List Char)
  | _, [] => ([], [])
  | depth, .code c :: ps =>
    let next := splitPieces sep (depthAfter depth c) ps
    if separates sep depth c then ([], next.1 :: next.2) else (c :: next.1, next.2)
  | depth, p :: ps =>
    let next := splitPieces sep depth ps
    (p.text ++ next.1, next.2)

/-- The parts of a text between the separators outside literals and brackets. -/
def splitTopLevel (d : Dialect) (sep : Char) (s : List Char) : List (List Char) :=
  let parts := splitPieces sep 0 (codePieces d s)
  parts.1 :: parts.2

/-- The text before the first semicolon outside brackets. -/
def statementIn : (depth : Nat) → List Piece → List Char
  | _, [] => []
  | depth, .code c :: ps =>
    if c = ';' ∧ depth = 0 then [] else c :: statementIn (depthAfter depth c) ps
  | depth, p :: ps => p.text ++ statementIn depth ps

/-- The statement at the head of a text: up to the first semicolon outside literals and brackets,
or all of it. -/
def statement (d : Dialect) (s : List Char) : List Char :=
  statementIn 0 (codePieces d s)

end SchemaDrift.Scan
