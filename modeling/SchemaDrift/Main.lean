import SchemaDrift.Command.Run

/-!
# The program

The program reads the paths of the project's files from standard input, one on a line and relative
to the working directory; a path that ends in a slash is a folder. It reads these files, runs its
command line on them, prints the report to standard output and its log to standard error, and ends
with the exit code.
-/

namespace SchemaDrift

/-- The tree with the file or the folder at a path. -/
def addPath (t : Files.FileTree) (path : String) : IO Files.FileTree := do
  if path.toList.getLast? = some '/' then
    return t.addFolder path
  let bytes ← IO.FS.readBinFile path
  return t.addFile path bytes.toList

/-- The tree of the files whose paths a stream gives. -/
def readTree (input : IO.FS.Stream) : IO Files.FileTree := do
  let mut t : Files.FileTree := {}
  repeat
    let line ← input.getLine
    if line.isEmpty then break
    let path := String.ofList (line.toList.filter (· ≠ '\n'))
    if !path.isEmpty then t ← addPath t path
  return t

end SchemaDrift

open SchemaDrift in
/-- The command: it takes its defaults from the environment and a tree of files from the standard
input. -/
def main (args : List String) : IO UInt32 := do
  let e : Command.Environment := {
    migrations := ← IO.getEnv "DRIFTCHECK_MIGRATIONS"
    types := ← IO.getEnv "DRIFTCHECK_TYPES"
    modules := ← IO.getEnv "DRIFTCHECK_MODULES" }
  let r := Command.run e args (← readTree (← IO.getStdin))
  for l in r.log do
    IO.eprintln l.text
  IO.print r.output
  return r.code.toUInt32
