import SchemaDrift.Wildcard.Pattern

/-!
# Matching wildcard patterns

A pattern is matched from its last token to its first. At each step a row of answers says for every
suffix of the text whether the tokens read so far match it, so the time grows with the product of
the lengths and no match is tried twice.
-/

namespace SchemaDrift.Wildcard

/-- Whether an element of a set holds a character. -/
def Spec.holds (c : Char) : Spec → Bool
  | single a => a == c
  | range a b => a ≤ c && c ≤ b

/-- Whether a token for one character takes a character. -/
def Token.takes (c : Char) : Token → Bool
  | char a => a == c
  | anyChar => true
  | within set => set.any (Spec.holds c)
  | except set => !set.any (Spec.holds c)
  | anySequence | anyDirectories => false

/-- The answers for a token that takes one character, given those for the tokens behind it. -/
def singleRow (t : Token) : List Char → List Bool → List Bool
  | c :: s, _ :: row => (t.takes c && row.headD false) :: singleRow t s row
  | _, _ => [false]

/-- The answers for any sequence: it may take nothing, or one character and then any sequence. -/
def sequenceRow : List Char → List Bool → List Bool
  | _ :: s, b :: row =>
    let later := sequenceRow s row
    (b || later.headD false) :: later
  | _, row => row

/-- Whether the tokens behind match what follows some slash, for every suffix. -/
def behindSlashRow : List Char → List Bool → List Bool
  | c :: s, _ :: row =>
    let later := behindSlashRow s row
    ((c == '/' && row.headD false) || later.headD false) :: later
  | _, _ => [false]

/-- The answers for directories: they take nothing, a text that ends with a slash, or all that is
left. -/
def directoriesRow (s : List Char) (row : List Bool) : List Bool :=
  List.zipWith (fun b later => b || later || row.getLastD false) row (behindSlashRow s row)

/-- The answers for a token, given those for the tokens behind it. -/
def tokenRow (s : List Char) (t : Token) (row : List Bool) : List Bool :=
  match t with
  | .anySequence => sequenceRow s row
  | .anyDirectories => directoriesRow s row
  | t => singleRow t s row

/-- The answers for no token: it matches the empty suffix alone. -/
def emptyRow (s : List Char) : List Bool :=
  s.map (fun _ => false) ++ [true]

/-- Whether a pattern matches a text. -/
def Pattern.accepts (p : Pattern) (text : String) : Bool :=
  let s := text.toList
  (p.tokens.foldr (tokenRow s) (emptyRow s)).headD false

end SchemaDrift.Wildcard
