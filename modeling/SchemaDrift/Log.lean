import SchemaDrift.Text.Quoted

/-!
# Log lines

A log line has a level, a message and named fields behind it. Levels are ordered by how much a
reader wants to know. A message shows characters that steer a terminal by their codes; fields are
written as they are, so a line of the log may run over several lines of text.
-/

namespace SchemaDrift

/-- How serious a log line is. -/
inductive LogLevel
  | error
  | warn
  | info
  | debug
deriving DecidableEq

/-- The name of a level. -/
def LogLevel.name : LogLevel → String
  | error => "ERROR"
  | warn => "WARN"
  | info => "INFO"
  | debug => "DEBUG"

/-- How far a level is from the most serious one. -/
def LogLevel.rank : LogLevel → Nat
  | error => 0
  | warn => 1
  | info => 2
  | debug => 3

/-- A line of the log. -/
structure LogLine where
  level : LogLevel
  message : String
  fields : List (String × String) := []
deriving DecidableEq

/-- How a character of a message is written: bell, backspace, form feed, escape, delete and the
controls beyond ASCII are shown by their codes. -/
def messageChar (c : Char) : List Char :=
  let n := c.toNat
  if n = 0x07 ∨ n = 0x08 ∨ n = 0x0C then ['\\', 'x', '0'] ++ Text.hexDigits n
  else if n = 0x1B ∨ n = 0x7F then ['\\', 'x'] ++ Text.hexDigits n
  else if 0x80 ≤ n ∧ n ≤ 0x9F then ['\\', 'u', '{'] ++ Text.hexDigits n ++ ['}']
  else [c]

/-- The message of a line as it is written. -/
def LogLine.messageText (l : LogLine) : String :=
  String.ofList (l.message.toList.flatMap messageChar)

/-- A line as it is written. -/
def LogLine.text (l : LogLine) : String :=
  l.level.name ++ " " ++ l.messageText ++
    String.join (l.fields.map fun f => " " ++ f.1 ++ "=" ++ f.2)

/-- The first line of a text that is followed by a line break. A carriage return right before a
line break belongs to it. -/
def firstLine (s : String) : String :=
  let line := s.toList.takeWhile (· ≠ '\n')
  String.ofList (if line.getLast? = some '\r' then line.dropLast else line)

/-- The part of a line up to its first line break, where its level stands. -/
def LogLine.headline (l : LogLine) : String :=
  firstLine l.text

end SchemaDrift
