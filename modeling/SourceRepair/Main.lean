import SourceRepair.CommandLine.Run
import SourceRepair.Shell.Script
import Std.Time.DateTime

/-!
# The command line

The program works on a copy of the working directory: it reads the files below it, does what the
arguments ask for, prints what came of it, and writes back the files that have changed. Compilers
are run by the built-in shell.
-/

namespace SourceRepair

/-- The time now. -/
def currentInstant : IO Instant := do
  let now ← Std.Time.Timestamp.now
  let t := (Std.Time.DateTime.ofTimestampWithZone now Std.Time.TimeZone.UTC).toPlainDateTime
  return {
    year := t.date.year.toInt
    month := t.date.month.val.toNat
    day := t.date.day.val.toNat
    hour := t.time.hour.val.toNat
    minute := t.time.minute.val.toNat
    second := t.time.second.val.toNat
    nanosecond := t.time.nanosecond.val.toNat }

/-- The place that an absolute path spells. -/
def placeOf (path : String) : Place :=
  (FileTree.steps path).filter (· ≠ "")

/-- Adds what stands in a directory to a tree, and what stands below it. -/
partial def readEntry (parent : Place) (tree : FileTree) (entry : IO.FS.DirEntry) :
    IO FileTree := do
  let place := parent ++ [entry.fileName]
  match (← entry.path.symlinkMetadata).type with
  | .dir => (← entry.path.readDir).foldlM (readEntry place) (tree.put place .directory)
  | .file => return tree.put place (.file (← IO.FS.readBinFile entry.path) Entry.fileMode)
  | .symlink =>
    try
      let target ← IO.FS.realPath entry.path
      return tree.put place (.symlink target.toString)
    catch _ => return tree
  | .other => return tree

/-- Adds one file to a tree, if it exists. -/
def readSingle (tree : FileTree) (path : String) : IO FileTree := do
  try
    let content ← IO.FS.readBinFile path
    return (tree.putParents (placeOf path)).put (placeOf path) (.file content Entry.fileMode)
  catch _ => return tree

/-- Writes a file that has changed. -/
def writeEntry (before : FileTree) (place : Place) (entry : Entry) : IO Unit := do
  let path := (FileTree.pathOf place).spelling
  match entry, before.entry? place with
  | .file content _, some (.file old _) =>
    if content != old then IO.FS.writeBinFile path content
  | .file content _, some (.symlink _) =>
    IO.FS.removeFile path
    IO.FS.writeBinFile path content
  | .file content _, none => IO.FS.writeBinFile path content
  | _, _ => return ()

/-- Writes back what has changed between two states of a tree. -/
def writeChanges (before after : FileTree) : IO Unit := do
  for (place, entry) in after.entries do
    writeEntry before place entry
  for (place, _) in before.entries do
    if (after.entry? place).isNone then
      IO.FS.removeFile (FileTree.pathOf place).spelling

/-- The directory of the user's configuration file. -/
def configDirectory : IO Path := do
  let own ← IO.getEnv "XDG_CONFIG_HOME"
  let home := (← IO.getEnv "HOME").getD ""
  return (Path.mk (own.getD (home ++ "/.config"))).join ⟨"mender"⟩

end SourceRepair

open SourceRepair in
/-- Runs the program on its arguments. -/
def main (args : List String) : IO UInt32 := do
  match Arguments.parse args with
  | .error .helpWanted =>
    IO.println ArgumentFault.helpWanted.message
    return 0
  | .error fault =>
    IO.eprintln fault.message
    return 2
  | .ok arguments =>
    let directory ← IO.currentDir
    let home := placeOf directory.toString
    let tree ← (← directory.readDir).foldlM (readEntry home) (.empty home)
    let configDirectory ← configDirectory
    let tree ← readSingle tree (Config.userFile configDirectory).spelling
    let start ← currentInstant
    let session := arguments.run {
      configDirectory
      launcher := Shell.launcher
      start
      stop := start } tree
    IO.print session.stdout
    for notice in session.notices do
      IO.eprintln notice.line
    writeChanges tree session.tree
    match session.failure with
    | none => return 0
    | some failure =>
      IO.eprintln ("ERROR Error: " ++ failure.message)
      return 1
