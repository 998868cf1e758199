import SchemaDrift.Json.Basic

/-!
# The text of a JSON value

One writer gives both forms of the text. Without an indentation everything stands on one line with
no blanks; with one, every item and member has its own line, two spaces deeper than its container.
A quote, a backslash and the controls are escaped in strings, and nothing else is.
-/

namespace SchemaDrift.Json

/-- The hexadecimal digit of a number below sixteen. -/
def hexDigit (n : Nat) : Char :=
  Char.ofNat (if n < 10 then 48 + n else 87 + n)

/-- How a character is written in a string. -/
def escapeChar (c : Char) : List Char :=
  if c = '"' then ['\\', '"']
  else if c = '\\' then ['\\', '\\']
  else if c = '\x08' then ['\\', 'b']
  else if c = '\t' then ['\\', 't']
  else if c = '\n' then ['\\', 'n']
  else if c = '\x0c' then ['\\', 'f']
  else if c = '\r' then ['\\', 'r']
  else if c.toNat < 0x20 then
    ['\\', 'u', '0', '0', hexDigit (c.toNat / 16), hexDigit (c.toNat % 16)]
  else [c]

/-- A string between its quotes. -/
def writeString (s : String) : List Char :=
  '"' :: s.toList.flatMap escapeChar ++ ['"']

/-- The end of a line and the indentation of the next one; nothing where all is on one line. -/
def lineBreak : Option Nat → List Char
  | none => []
  | some n => '\n' :: List.replicate n ' '

/-- The indentation inside a container. -/
def deeper (indent : Option Nat) : Option Nat :=
  indent.map (· + 2)

/-- What stands between the name of a member and its value. -/
def colon (indent : Option Nat) : List Char :=
  if indent.isSome then [':', ' '] else [':']

mutual

/-- The text of a value. -/
def write (indent : Option Nat) : Json → List Char
  | null => ['n', 'u', 'l', 'l']
  | bool true => ['t', 'r', 'u', 'e']
  | bool false => ['f', 'a', 'l', 's', 'e']
  | nat n => Nat.toDigits 10 n
  | number spelling => spelling.toList
  | string s => writeString s
  | array [] => ['[', ']']
  | array (x :: xs) => '[' :: lineBreak (deeper indent) ++ write (deeper indent) x ++
      writeItems indent xs
  | object [] => ['{', '}']
  | object ((k, v) :: ms) => '{' :: lineBreak (deeper indent) ++ writeString k ++ colon indent ++
      write (deeper indent) v ++ writeMembers indent ms

/-- The later items of an array and its closing bracket. -/
def writeItems (indent : Option Nat) : List Json → List Char
  | [] => lineBreak indent ++ [']']
  | x :: xs => ',' :: lineBreak (deeper indent) ++ write (deeper indent) x ++ writeItems indent xs

/-- The later members of an object and its closing brace. -/
def writeMembers (indent : Option Nat) : List (String × Json) → List Char
  | [] => lineBreak indent ++ ['}']
  | (k, v) :: ms => ',' :: lineBreak (deeper indent) ++ writeString k ++ colon indent ++
      write (deeper indent) v ++ writeMembers indent ms

end

/-- The text of a value on one line. -/
def compact (v : Json) : String :=
  String.ofList (write none v)

/-- The text of a value with a line for every item and member. -/
def pretty (v : Json) : String :=
  String.ofList (write (some 0) v)

end SchemaDrift.Json
