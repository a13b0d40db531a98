import SourceRepair.FileTree.Basic

/-!
# Writing files

A file that exists is replaced in one step: the new content goes to a temporary file in the same
directory, which takes over the access rights and is then renamed over the path. Whoever reads the
path sees the old content or the new one. The renaming acts on the path itself, so that a symbolic
link is replaced and not followed. A report is written in the plain way, which follows links and
creates the file if need be; a device takes it or does not.
-/

namespace SourceRepair

/-- Whether changes to files are only shown, or written. -/
inductive WriteMode where
  | preview
  | write
  deriving DecidableEq, Repr, Inhabited

namespace FileTree

/-- Takes away what stands at a place. -/
def remove (tree : FileTree) (place : Place) : FileTree :=
  { tree with entries := tree.entries.filter (·.1 != place) }

/-- The mode of what a path leads to. -/
def modeOf (tree : FileTree) (path : Path) : Except IoCause Mode :=
  match tree.locate true path with
  | .error cause => .error cause
  | .ok (_, .file _ mode) => .ok mode
  | .ok (_, .device _) => .ok Entry.deviceMode
  | .ok (_, _) => .ok Entry.directoryMode

/-- The steps of a path without the slash at its end, and whether it has one. -/
def stepsAndSlash (path : Path) : List String × Bool :=
  match (steps path.spelling).reverse with
  | "" :: s :: before => (((s :: before).dropWhile (· == "")).reverse, true)
  | reversed => (reversed.reverse, false)

/-- The directory that holds the last step of a path, and that step. -/
def parentOf (tree : FileTree) (path : Path) : Except IoCause (Place × String) :=
  match pathFault? path, (stepsAndSlash path).1.reverse with
  | some cause, _ => .error cause
  | none, [] => .error .busy
  | none, last :: before =>
    match tree.walk true linkLimit (if path.isAbsolute then [] else tree.home) before.reverse with
    | .error cause => .error cause
    | .ok (_, none) => .error .noEntry
    | .ok (place, some .directory) => .ok (place, last)
    | .ok (_, some _) => .error .notDirectory

/-- Moves the file at a place to a path, over a file or link that stands there. -/
def rename (tree : FileTree) (origin : Place) (path : Path) : Except IoCause FileTree :=
  match tree.entry? origin, tree.parentOf path with
  | none, _ => .error .noEntry
  | _, .error cause => .error cause
  | some entry, .ok (parent, last) =>
    if last = "" ∨ last = "." ∨ last = ".." then .error .busy
    else if nameLimit < last.utf8ByteSize then .error .nameTooLong
    else if (stepsAndSlash path).2 then .error .notDirectory
    else
      match tree.entry? (parent ++ [last]) with
      | some .directory => .error .isDirectory
      | _ => .ok ((tree.remove origin).put (parent ++ [last]) entry)

/-- A place in a directory where nothing stands. -/
def freshPlace (tree : FileTree) (directory : Place) : Place :=
  let names := (List.range (tree.entries.length + 1)).map fun n => ".tmp" ++ toString n
  directory ++ [(names.find? fun name =>
    tree.entries.all fun (place, _) => place != directory ++ [name]).getD ".tmp"]

/-- Replaces the content of the file at a path in one step. -/
def writeAtomically (tree : FileTree) (path : Path) (content : String) :
    Except Failure Unit × FileTree :=
  match tree.modeOf path, tree.locate true path.directory with
  | .error cause, _ => (.error (.io path cause), tree)
  | .ok _, .error cause => (.error (.io path cause), tree)
  | .ok mode, .ok (directory, _) =>
    let temporary := tree.freshPlace directory
    let filled := tree.put temporary (.file content.toUTF8 mode)
    match filled.rename temporary path with
    | .error cause => (.error (.io path cause), filled.remove temporary)
    | .ok renamed => (.ok (), renamed)

/-- Writes bytes to a path; links are followed, and a missing file is created. -/
def writeBytes (tree : FileTree) (path : Path) (content : ByteArray) :
    Except IoCause FileTree :=
  if (stepsAndSlash path).2 then
    match tree.parentOf path with
    | .error cause => .error cause
    | .ok _ => .error .isDirectory
  else
    match tree.resolve true path with
    | .error cause => .error cause
    | .ok (_, some .directory) => .error .isDirectory
    | .ok (_, some (.device .null)) => .ok tree
    | .ok (_, some (.device .full)) => if content.isEmpty then .ok tree else .error .noSpace
    | .ok (place, some (.file _ mode)) => .ok (tree.put place (.file content mode))
    | .ok (place, _) => .ok (tree.put place (.file content Entry.fileMode))

/-- Writes a text to a path. -/
def writeText (tree : FileTree) (path : Path) (content : String) : Except IoCause FileTree :=
  tree.writeBytes path content.toUTF8

end FileTree

end SourceRepair
