import SourceRepair.Config.Reading
import SourceRepair.FileTree.Basic
import SourceRepair.Text.Quoted
import SourceRepair.Text.Utf8
import SourceRepair.Toml.Document

/-!
# Layers of configuration

The configuration is put together from layers, each of which overrides those before it: the built-in
settings, the user's file, the file in the working directory, the settings on the command line, and
the flags that stand for one setting each. A table in a layer leaves the keys alone that it does not
mention; anything else is replaced whole. Files may be missing.
-/

namespace SourceRepair

/-- What a command line says about the configuration. -/
structure ConfigFlags where
  /-- Settings of the form `name=value`, in order. -/
  assignments : List String := []
  root : Option Path := none
  /-- Whether files are to be written. -/
  live : Bool := false
  report : Option Path := none
  deriving DecidableEq, Repr, Inhabited

namespace Config

/-! ## Files -/

/-- The settings that hold where nothing else is set. -/
def builtIn : Setting :=
  let texts (items : List String) : Setting := .array (items.map .string)
  .table [
    ("project_root", .string "."),
    ("dry_run", .bool true),
    ("compiler", .table [
      ("program", .string CompilerCommand.tsc.program),
      ("args", texts CompilerCommand.tsc.args),
      ("format", .string "tsc")]),
    ("scan", .table [
      ("extensions", texts ({} : ScanConfig).extensions),
      ("exclude_dirs", texts ({} : ScanConfig).excludeDirs)])]

/-- The name of configuration files. -/
def fileName : Path := ⟨"mender.toml"⟩

/-- The user's configuration file in the directory for such files. -/
def userFile (directory : Path) : Path :=
  directory.join fileName

/-- The content of the configuration file at a path, or at the path with one more extension. A byte
order mark in front of a file is no part of its content. -/
def readFile? (tree : FileTree) (path : Path) : Option String :=
  let content? (path : Path) : Option String :=
    match tree.locate true path with
    | .ok (_, .file content _) =>
      some (String.ofList (Text.dropOrderMark (Text.ofBytes content.toList)))
    | _ => none
  (content? path).or (content? ⟨path.spelling ++ ".toml"⟩)

/-- Sets the keys of a file. A key that can be read as a path is one. -/
def setMembers (base : Setting) (members : List (String × Setting)) : Setting :=
  members.foldl (fun base (key, value) =>
    Setting.setAt value ((Setting.readPath? key).getD [.key key]) base) base

/-- The settings after those of a file have been set, if there is one. -/
def addFile (tree : FileTree) (path : Path) (base : Setting) : Except ConfigFault Setting :=
  match readFile? tree path with
  | none => .ok base
  | some text =>
    match Toml.Document.ofText? text with
    | none => .error .unreadable
    | some members => .ok (setMembers base members)

/-! ## Assignments -/

/-- A value at the end of a path of settings. -/
structure Assignment where
  steps : List Setting.Step
  value : Setting
  deriving Repr, Inhabited

/-- The bounds of whole numbers. -/
def isWord (n : Int) : Bool :=
  -Int.pow 2 63 ≤ n && n < Int.pow 2 63

/-- The whole number that a text writes: digits, perhaps with a sign in front. -/
def wholeNumber? (text : List Char) : Option Int :=
  let (negative, digits) := Text.splitSign text
  let value := Text.signed negative (Text.digitsValue 10 digits)
  if digits.isEmpty || !digits.all Text.isDecimal || !isWord value then none else some value

/-- The setting that a text on the command line stands for: a truth value, a whole number, or the
text itself. -/
def typedValue (text : List Char) : Setting :=
  if text = "true".toList then .bool true
  else if text = "false".toList then .bool false
  else
    match wholeNumber? text with
    | some value => .int value
    | none => .string (String.ofList text)

/-- Reads an assignment, which is split at its first `=`. -/
def Assignment.ofText (text : String) : Except ConfigFault Assignment :=
  match text.toList.dropWhile (· != '=') with
  | [] => .error (.missingEquals (Text.quoted text))
  | _ :: value =>
    match Setting.readPath? (String.ofList (text.toList.takeWhile (· != '='))) with
    | none => .error .unreadable
    | some steps => .ok ⟨steps, typedValue value⟩

/-- Adds an assignment; of two to the same path the later one counts. -/
def Assignment.add (assignments : List Assignment) (new : Assignment) : List Assignment :=
  assignments.filter (·.steps ≠ new.steps) ++ [new]

/-- All assignments of a command line. -/
def readAssignments (flags : ConfigFlags) : Except ConfigFault (List Assignment) := do
  let assignments ← flags.assignments.mapM Assignment.ofText
  let live : List Assignment := if flags.live then [⟨[.key "dry_run"], .bool false⟩] else []
  return (assignments ++ live).foldl Assignment.add []

/-- The settings after an assignment. -/
def Assignment.apply (base : Setting) (assignment : Assignment) : Setting :=
  Setting.setAt assignment.value assignment.steps base

/-! ## All layers -/

/-- The settings of all layers but the flags. -/
def settings (tree : FileTree) (directory : Path) (flags : ConfigFlags) :
    Except ConfigFault Setting := do
  let assignments ← readAssignments flags
  let base ← addFile tree (userFile directory) builtIn
  let base ← addFile tree fileName base
  return assignments.foldl Assignment.apply base

/-- The configuration of a run. -/
def load (tree : FileTree) (directory : Path) (flags : ConfigFlags) :
    Except ConfigFault Config := do
  match Reading.lenient.config? (← settings tree directory flags) with
  | none => throw .unreadable
  | some config =>
    return { config with
      projectRoot := flags.root.getD config.projectRoot
      report := flags.report.or config.report }

end Config

end SourceRepair
