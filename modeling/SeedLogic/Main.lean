import SeedLogic.CommandLine

/-!
# The program

Reads the files that the arguments name, runs, and prints.
-/

namespace SeedLogic.CommandLine

/-- How the program is called. -/
def usage : String :=
  "usage: --world FILE... --settings FILE [--placement FILE] [--random-seed NUMBER] " ++
    "[--output-spoiler-log FILE]"

/-- The text of a file, if it can be read. -/
def readText? (path : String) : IO (Option String) :=
  try
    return some (← IO.FS.readFile path)
  catch _ =>
    return none

/-- The texts of all files that arguments name. -/
def readTexts (arguments : Arguments) : IO FileTexts := do
  let paths := arguments.tables ++ arguments.settings?.toList ++ arguments.placement?.toList
  let texts ← paths.mapM fun path => return (path, ← readText? path)
  return fun path => (texts.lookup path).join

/-- Print what a run reports, and write its file. -/
def deliver (report : Report) : IO Unit := do
  for record in report.log do
    IO.eprintln ("[" ++ record.level.name ++ "] " ++ record.text)
  IO.print report.output
  if let some (path, text) := report.file? then
    IO.FS.writeFile path text
  unless report.complaint.isEmpty do
    IO.eprintln report.complaint

end SeedLogic.CommandLine

/-- Run the program with the arguments of the command line. -/
def main (words : List String) : IO UInt32 := do
  match SeedLogic.Arguments.ofWords? words with
  | none =>
      IO.eprintln SeedLogic.CommandLine.usage
      return 2
  | some arguments =>
      let texts ← SeedLogic.CommandLine.readTexts arguments
      let seed ← IO.rand 0 (Nat.pow 2 32 - 1)
      let report := SeedLogic.CommandLine.execute texts arguments seed
      SeedLogic.CommandLine.deliver report
      return UInt32.ofNat report.exitCode
