import SchemaDrift.Command.Given
import SchemaDrift.Drift.Check

/-!
# Reading a command line

A command line has options, at most one subcommand, and options behind it. The value that follows an
option as an argument of its own is checked only when the next option comes or its level ends, so
help asked for behind a subcommand is given even if the last value before the subcommand is bad.
-/

namespace SchemaDrift.Command

/-- How an argument reads by itself. -/
inductive Argument
  | separator
  | long (name : String) (value : Option String)
  | short (letters : List Char)
  | word (s : String)
deriving DecidableEq

/-- Reads an argument. A single hyphen is a word. -/
def Argument.ofText (s : String) : Argument :=
  match s.toList with
  | ['-', '-'] => .separator
  | '-' :: '-' :: name =>
    .long (String.ofList (name.takeWhile (· ≠ '=')))
      (match name.dropWhile (· ≠ '=') with
      | [] => none
      | _ :: value => some (String.ofList value))
  | '-' :: c :: letters => .short (c :: letters)
  | _ => .word s

/-- One level of a command line while it is read: what was given, and a value that is still to be
checked. -/
structure Level where
  given : Given := {}
  pending : Option (ValueOption × String) := none
deriving DecidableEq

/-- What a level gives, with every value checked. -/
def Level.settle (l : Level) : Except Stop Given :=
  match l.pending with
  | none => .ok l.given
  | some (o, value) => l.given.add o value

/-- The options that take no value. -/
inductive Switch
  | verbose
  | help
  | version
deriving DecidableEq

namespace Switch

/-- The switch with a name. Behind a subcommand there is none for the version. -/
def ofName? (outer : Bool) (s : String) : Option Switch :=
  if s = "verbose" then some .verbose
  else if s = "help" then some .help
  else if s = "version" ∧ outer then some .version
  else none

/-- The switch with a letter. -/
def ofLetter? (outer : Bool) (c : Char) : Option Switch :=
  if c = 'v' then some .verbose
  else if c = 'h' then some .help
  else if c = 'V' ∧ outer then some .version
  else none

/-- What a switch does to what was given. -/
def apply (g : Given) : Switch → Except Stop Given
  | verbose => .ok { g with verbosity := g.verbosity + 1 }
  | help => .error .help
  | version => .error .version

end Switch

/-- Applies a switch to a level, if there is one. -/
def Level.switch (l : Level) (s : Option Switch) : Except Stop Level := do
  match s with
  | none => throw .invalid
  | some s => return { given := ← s.apply (← l.settle) }

/-- The subcommands and what they check. -/
def subcommands : List (String × Check) :=
  [("check", .all), ("sync", .sync), ("usage", .usage), ("relations", .relations)]

/-- The check that a subcommand makes. -/
def subcommand? (s : String) : Option Check :=
  subcommands.lookup s

/-- What asking for help with further words gives: they are at most one subcommand. -/
def helpOn (topics : List String) : Stop :=
  match topics with
  | [] => .help
  | [s] => if s = "help" ∨ (subcommand? s).isSome then .help else .invalid
  | _ => .invalid

/-- A level that was read to its end, and the subcommand that ended it with the arguments behind. -/
structure LevelEnd where
  level : Level
  command : Option (Check × List String) := none
deriving DecidableEq

/-- Reads a level. If the argument before was an option by itself, its value is awaited. -/
def readLevel (outer : Bool) :
    (awaiting : Option ValueOption) → Level → List String → Except Stop LevelEnd
  | none, l, [] => .ok { level := l }
  | some _, _, [] => .error .invalid
  | some o, l, a :: rest =>
    match Argument.ofText a with
    | .word value => readLevel outer none { l with pending := some (o, value) } rest
    | _ => .error .invalid
  | none, l, a :: rest =>
    match Argument.ofText a with
    | .separator => if rest.isEmpty then .ok { level := l } else .error .invalid
    | .long name value =>
      match ValueOption.ofName? name, value with
      | some o, none => do readLevel outer (some o) { given := ← l.settle } rest
      | some o, some v => do readLevel outer none { given := ← (← l.settle).add o v } rest
      | none, none => do readLevel outer none (← l.switch (Switch.ofName? outer name)) rest
      | none, some _ => .error .invalid
    | .short letters => do
      let l ← letters.foldlM (fun l c => l.switch (Switch.ofLetter? outer c)) l
      readLevel outer none l rest
    | .word s =>
      if outer then
        match subcommand? s with
        | some k => .ok { level := l, command := some (k, rest) }
        | none => .error (if s = "help" then helpOn rest else .invalid)
      else .error .invalid

/-- The paths that the environment gives. -/
structure Environment where
  migrations : Option String := none
  types : Option String := none
  modules : Option String := none
deriving DecidableEq

/-- Checks the environment's path for an option, which counts where the option is not given. -/
def environmentPath (given env : Option String) : Except Stop Unit :=
  if given.isNone ∧ env = some "" then .error .invalid else .ok ()

/-- Checks the environment at a level. -/
def Environment.validate (e : Environment) (g : Given) : Except Stop Unit := do
  environmentPath g.migrations e.migrations
  environmentPath g.types e.types
  environmentPath g.modules e.modules

/-- Reads a command line: what it gives, and the check that its subcommand makes. -/
def readArguments (e : Environment) (args : List String) : Except Stop (Given × Check) := do
  let outer ← readLevel true none {} args
  match outer.command with
  | none =>
    let g ← outer.level.settle
    e.validate g
    return (g, .all)
  | some (check, rest) =>
    let inner ← (← readLevel false none {} rest).level.settle
    e.validate inner
    let g ← outer.level.settle
    e.validate g
    return (g.override inner, check)

end SchemaDrift.Command
