import SchemaDrift.Scan.Bracket

/-!
# Members of an object type

The names that an object type declares for its own members. Names inside brackets, braces or
parentheses belong to other types and are passed over. A member may begin at the start of the body
and behind a semicolon, a comma or the end of a line.
-/

namespace SchemaDrift.RowType

open SchemaDrift.Scan

/-- Whether a name may begin with a character. -/
def isMemberStart (c : Char) : Bool :=
  c.isAlpha || c == '_' || c == '$'

/-- Whether a name may go on with a character. -/
def isMemberChar (c : Char) : Bool :=
  c.isAlphanum || c == '_' || c == '$'

/-- Whether a character may stand between the parts of a member. -/
def isGap (c : Char) : Bool :=
  c == ' ' || c == '\t' || c == '\n' || c == '\x0c' || c == '\r'

/-- Whether a character may stand between a name and its colon. -/
def isLineGap (c : Char) : Bool :=
  c == ' ' || c == '\t' || c == '\r'

/-- Whether a text begins with a colon that is not doubled. -/
def startsWithColon : List Char → Bool
  | ':' :: s => s.head? != some ':'
  | _ => false

/-- Whether a text goes on like a member behind its name: with a colon, or with a question mark and
a colon. -/
def followedByColon (s : List Char) : Bool :=
  match s.dropWhile isLineGap with
  | '?' :: s => startsWithColon (s.dropWhile isLineGap)
  | s => startsWithColon s

/-- The word that may stand before the name of a member. -/
def readonly : List Char :=
  ['r', 'e', 'a', 'd', 'o', 'n', 'l', 'y']

/-- The names of members from a place on: how many symbols of it were read before, how many
brackets are open, and whether a member may begin. -/
def memberNamesFrom : (skip depth : Nat) → (fresh : Bool) → List Char → List (List Char)
  | _, _, _, [] => []
  | skip + 1, depth, fresh, _ :: s => memberNamesFrom skip depth fresh s
  | 0, depth, fresh, c :: s =>
    match literal? .typeScript (c :: s) with
    | some l =>
      let later := memberNamesFrom (l.length - 1) depth false s
      if depth = 0 ∧ fresh ∧ 1 < l.length ∧ followedByColon ((c :: s).drop l.length) then
        (l.drop 1).dropLast :: later
      else later
    | none =>
      if isOpener c then memberNamesFrom 0 (depth + 1) false s
      else if isCloser c then memberNamesFrom 0 (depth - 1) false s
      else if depth = 0 ∧ (c = ';' ∨ c = ',' ∨ c = '\n') then memberNamesFrom 0 depth true s
      else if isGap c then memberNamesFrom 0 depth fresh s
      else if isMemberStart c then
        let word := s.takeWhile isMemberChar
        let colon := followedByColon (s.dropWhile isMemberChar)
        if depth = 0 ∧ fresh ∧ c :: word = readonly ∧ !colon then
          memberNamesFrom word.length depth true s
        else if depth = 0 ∧ fresh ∧ colon then
          (c :: word) :: memberNamesFrom word.length depth false s
        else memberNamesFrom word.length depth false s
      else memberNamesFrom 0 depth false s

/-- The names that an object type with a given body declares for its members, in order. -/
def memberNames (body : List Char) : List (List Char) :=
  memberNamesFrom 0 0 true body

end SchemaDrift.RowType
