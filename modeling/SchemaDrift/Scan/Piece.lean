import SchemaDrift.Scan.Literal

/-!
# Pieces of a text

A text falls into pieces: literals, comments, and the single symbols of code between them.
`codePieces` tells literals from code, which is how a text without comments is scanned, and
`allPieces` tells comments apart too. The texts of the pieces make up the text that was read.
-/

namespace SchemaDrift.Scan

/-- A piece of a text. -/
inductive Piece
  | code (c : Char)
  | literal (text : List Char)
  | comment (text : List Char)
deriving DecidableEq, Repr

/-- The text of a piece. -/
def Piece.text : Piece → List Char
  | code c => [c]
  | literal s => s
  | comment s => s

/-- The pieces of a text, given how to read one that is no single symbol of code. The first `skip`
symbols belong to a piece that was read before. -/
def pieces (read? : List Char → Option Piece) : (skip : Nat) → List Char → List Piece
  | _, [] => []
  | skip + 1, _ :: s => pieces read? skip s
  | 0, c :: s =>
    match read? (c :: s) with
    | none => .code c :: pieces read? 0 s
    | some p => p :: pieces read? (p.text.length - 1) s

/-- The mark that begins a comment up to the end of its line. -/
def Dialect.lineMark : Dialect → List Char
  | .sql => ['-', '-']
  | .typeScript => ['/', '/']

/-- The comment at the head of a text, if one begins there: to the end of its line, or from a slash
and a star to the first star and slash. -/
def comment? (d : Dialect) (s : List Char) : Option (List Char) :=
  if d.lineMark.isPrefixOf s then some (s.takeWhile (· ≠ '\n'))
  else if ['/', '*'].isPrefixOf s then some (['/', '*'] ++ throughTag ['*', '/'] (s.drop 2))
  else none

/-- The pieces of a text in which nothing is taken for a comment. -/
def codePieces (d : Dialect) (s : List Char) : List Piece :=
  pieces (fun s => (literal? d s).map .literal) 0 s

/-- The pieces of a text, comments included. -/
def allPieces (d : Dialect) (s : List Char) : List Piece :=
  pieces (fun s => ((literal? d s).map .literal).or ((comment? d s).map .comment)) 0 s

/-- A piece with the symbols of a comment blanked: line ends stay, and every other symbol becomes
as many spaces as it is wide. -/
def Piece.blanked (width : Char → Nat) : Piece → List Char
  | comment s => s.flatMap fun c => if c = '\n' then [c] else List.replicate (width c) ' '
  | code c => [c]
  | literal s => s

/-- A text with its comments blanked, so that every symbol outside them keeps its offset. -/
def blankComments (width : Char → Nat) (d : Dialect) (s : List Char) : List Char :=
  (allPieces d s).flatMap (Piece.blanked width)

/-- A text of characters with its comments blanked; offsets are counted in bytes of UTF-8. -/
def stripComments (d : Dialect) (s : List Char) : List Char :=
  blankComments Char.utf8Size d s

end SchemaDrift.Scan
