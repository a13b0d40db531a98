import SourceRepair.Config.Basic
import SourceRepair.Config.Setting

/-!
# Reading a configuration

A configuration is read out of the settings of files and command line, or out of JSON. The two agree
on the keys and on which of them may be missing, and differ in how freely a value is converted; a
`Reading` says how.
-/

namespace SourceRepair

open Json (Value)

/-- How values of a kind are read as parts of a configuration. -/
structure Reading (α : Type) where
  flag? : α → Option Bool
  text? : α → Option String
  /-- The name of a choice; it may be the only key of a table. -/
  choice? : α → Option String
  items? : α → Option (List α)
  members? : α → Option (List (String × α))
  isNothing : α → Bool
  toJson : α → Value

namespace Reading

variable {α β : Type}

/-- Settings are converted freely. -/
def lenient : Reading Setting where
  flag? := Setting.toBool?
  text? := Setting.toText?
  choice?
    | .string name => some name
    | .table [(name, _)] => some name
    | _ => none
  items?
    | .array items => some items
    | _ => none
  members?
    | .table members => some members
    | _ => none
  isNothing
    | .absent => true
    | _ => false
  toJson := Setting.toJson

/-- JSON values are taken as they are. -/
def strict : Reading Value where
  flag?
    | .bool value => some value
    | _ => none
  text?
    | .string value => some value
    | _ => none
  choice?
    | .string name => some name
    | .object [(name, .null)] => some name
    | _ => none
  items?
    | .array items => some items
    | _ => none
  members?
    | .object members => some members
    | _ => none
  isNothing
    | .null => true
    | _ => false
  toJson value := value

/-- A list of strings. -/
def texts? (r : Reading α) (value : α) : Option (List String) :=
  (r.items? value).bind (·.mapM r.text?)

/-- The name of an output format. -/
def format? (r : Reading α) (value : α) : Option OutputFormat :=
  (r.choice? value).bind OutputFormat.ofName?

/-- A path that may be nothing. -/
def report? (r : Reading α) (value : α) : Option (Option Path) :=
  if r.isNothing value then some none else (r.text? value).map fun path => some ⟨path⟩

/-- The member under a key; `absent` stands for a missing one. -/
def member (members : List (String × α)) (key : String) (read? : α → Option β)
    (absent : Option β) : Option β :=
  match members.lookup key with
  | none => absent
  | some value => read? value

/-- The members under other keys than the known ones, in increasing order of the keys. -/
def others (r : Reading α) (known : List String) (members : List (String × α)) : UnknownKeys :=
  let unknown := members.filter fun (key, _) => !known.contains key
  (unknown.map fun (key, value) => (key, r.toJson value)).mergeSort fun a b => a.1 ≤ b.1

/-- The table about the compiler, and its unknown keys. -/
def compiler? (r : Reading α) (value : α) : Option (CompilerCommand × UnknownKeys) := do
  let members ← r.members? value
  let command : CompilerCommand := {
    program := ← member members "program" r.text? none
    args := ← member members "args" r.texts? (some [])
    format := ← member members "format" r.format? (some .tsc) }
  return (command, r.others ["program", "args", "format"] members)

/-- The table about scans, and its unknown keys. -/
def scan? (r : Reading α) (value : α) : Option (ScanConfig × UnknownKeys) := do
  let members ← r.members? value
  let usual : ScanConfig := {}
  let scan : ScanConfig := {
    extensions := ← member members "extensions" r.texts? (some usual.extensions)
    excludeDirs := ← member members "exclude_dirs" r.texts? (some usual.excludeDirs) }
  return (scan, r.others ["extensions", "exclude_dirs"] members)

/-- The whole configuration. -/
def config? (r : Reading α) (value : α) : Option Config := do
  let members ← r.members? value
  let (compiler, unknownCompiler) ← member members "compiler" r.compiler? none
  let (scan, unknownScan) ← member members "scan" r.scan? (some ({}, []))
  return {
    projectRoot := ⟨← member members "project_root" r.text? none⟩
    dryRun := ← member members "dry_run" r.flag? (some true)
    report := ← member members "report" r.report? (some none)
    compiler
    scan
    unknown := r.others ["project_root", "dry_run", "report", "compiler", "scan"] members
    unknownCompiler
    unknownScan }

end Reading

end SourceRepair
