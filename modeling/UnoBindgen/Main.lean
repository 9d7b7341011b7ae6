import UnoBindgen.Cli.Run

/-!
# The program

The program fetches the files that its command line is about, runs the command on them, puts back
what has changed, and prints what the command says.
-/

namespace UnoBindgen.Main

/-- The text of a native string. -/
def textOf (string : String) : Text := string.toList

/-- What is at a path of the disk. -/
def fetchNode (path : Text) : IO (Option FileNode) := do
  let here ← IO.currentDir
  let target := here / path.toString
  if ← target.isDir then
    return some .directory
  else if ← target.pathExists then
    return some (.file (textOf (← IO.FS.readFile target)))
  else
    return none

/-- Add what is at a path of the disk to a store. -/
def fetch (store : FileStore) (path : Text) : IO FileStore := do
  let place := store.place path
  match ← fetchNode path with
  | some node => return FileStore.adopt place.dropLast.reverse (store.put place node)
  | none => return store

/-- Add a directory of the disk with everything below it to a store. -/
partial def fetchTree (store : FileStore) (path : Text) : IO FileStore := do
  let fetched ← fetch store path
  let here ← IO.currentDir
  let target := here / path.toString
  if ← target.isDir then
    let mut filled := fetched
    for entry in ← target.readDir do
      filled ← fetchTree filled (Text.SlashPath.join [path, textOf entry.fileName])
    return filled
  else
    return fetched

/-- The paths that a command line may be about, apart from the output root. -/
def concernedPaths (store : FileStore) (home : Text) (arguments : List Text) : List Text :=
  let projectFiles := (Settings.upwards store.workingDirectory).map fun directory =>
    Text.SlashPath.ofSegments true (directory ++ [Settings.fileName])
  let backups := [1, 2, 3].map (Settings.backupPath Settings.fileName)
  let origins := (Settings.candidates ⟨store, home, []⟩).map Settings.Origin.path
  projectFiles ++ backups ++ origins ++ arguments

/-- Fetch the environment variables that may override any key in use. -/
def fetchVariables (layers : Settings.Layers) (arguments : List Text) :
    IO (List (Text × Text)) := do
  let keys := layers.keys ++ arguments.map Text.toLower
  let names := keys.flatMap fun key =>
    (key :: Settings.properStarts (key.splitAt '.')).map Setting.environmentVariable
  let mut environment := []
  for name in Text.distinct names do
    if let some content ← IO.getEnv name.toString then
      environment := (name, textOf content) :: environment
  return environment

/-- Bring the disk from the files of one store to those of another. -/
def putBack (before after : FileStore) : IO Unit := do
  for (place, node) in after.nodes do
    if before.node? place ≠ some node then
      let path := (Text.SlashPath.ofSegments true place).toString
      if node.isDirectory then
        IO.FS.createDirAll path
      else
        IO.FS.writeFile path node.content.toString
  for (place, _) in before.nodes do
    if (after.node? place).isNone then
      IO.FS.removeFile (Text.SlashPath.ofSegments true place).toString

/-- A number of milliseconds as a person reads it. -/
def elapsedText (milliseconds : Nat) : Text :=
  if milliseconds == 0 then
    "0s"
  else if milliseconds < 1000 then
    Text.ofNat milliseconds ++ "ms"
  else
    let seconds : Text.Decimal := ⟨false, milliseconds % 60000, -3⟩
    let minutes := milliseconds / 60000
    (if minutes == 0 then [] else Text.ofNat minutes ++ ['m']) ++
      seconds.canonical.positional ++ ['s']

/-- Run the program. -/
def runProgram (arguments : List Text) : IO UInt32 := do
  let home := textOf ((← IO.getEnv "HOME").getD "/")
  let here := textOf (← IO.currentDir).toString
  let blank := FileStore.empty .disk (Text.SlashPath.segments here)
  let mut store := FileStore.adopt blank.workingDirectory.reverse blank
  for path in concernedPaths store home arguments do
    store ← fetch store path
  let environment ← fetchVariables (Settings.Layers.gather ⟨store, home, []⟩) arguments
  if let some root := Cli.concernedRoot? ⟨store, home, environment⟩ arguments then
    store ← fetchTree store root
  let release := Release.development "unknown" "unknown"
  let start ← IO.monoMsNow
  let outcome := Cli.run release ⟨store, home, environment⟩ arguments
  putBack store outcome.store
  let stop ← IO.monoMsNow
  IO.print (outcome.printed (elapsedText (stop - start))).toString
  IO.eprint outcome.complaint.toString
  return outcome.exitCode

end UnoBindgen.Main

/-- The entry point. -/
def main (arguments : List String) : IO UInt32 :=
  UnoBindgen.Main.runProgram (arguments.map UnoBindgen.Main.textOf)
