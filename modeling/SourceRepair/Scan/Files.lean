import SourceRepair.FileTree.Write
import SourceRepair.Json.Value
import SourceRepair.Notice
import SourceRepair.Scan.Finding
import SourceRepair.Scan.Sources

/-!
# Scanning and fixing files

All source files of some roots are scanned, and their fixes are written back if asked for. Files
without findings are not listed, and files that cannot be read or written are left out with a
warning.
-/

namespace SourceRepair

open Json (Value)

/-- The findings in one file. -/
structure FileFindings where
  path : Path
  findings : List Finding
  /-- The number of fixes that were written back. -/
  fixesApplied : Nat
  deriving DecidableEq, Repr, Inhabited

/-- Scans one file, and writes its fixes back if they change it. -/
def scanFile (rules : List Rule) (mode : WriteMode) (path : Path) (tree : FileTree) :
    Except Failure FileFindings × FileTree :=
  match tree.readText path with
  | .error cause => (.error (.io path cause), tree)
  | .ok content =>
    let text := content.toList
    let findings := scan rules text
    let (fixed, applied) := applyFixes text findings
    if mode = .write ∧ fixed ≠ text then
      match tree.writeAtomically path (String.ofList fixed) with
      | (.error failure, tree) => (.error failure, tree)
      | (.ok (), tree) => (.ok ⟨path, findings, applied⟩, tree)
    else (.ok ⟨path, findings, 0⟩, tree)

/-- Scans files one after the other. -/
def scanFiles (rules : List Rule) (mode : WriteMode) :
    List Path → FileTree → List FileFindings × List Notice × FileTree
  | [], tree => ([], [], tree)
  | path :: paths, tree =>
    let (outcome, tree) := scanFile rules mode path tree
    let (results, notices, tree) := scanFiles rules mode paths tree
    match outcome with
    | .error failure => (results, .skipping path failure :: notices, tree)
    | .ok result => (if result.findings = [] then results else result :: results, notices, tree)

/-- Scans the source files of some roots. -/
def scanRoots (rules : List Rule) (mode : WriteMode) (config : ScanConfig) (roots : List Path)
    (tree : FileTree) : List FileFindings × List Notice × FileTree :=
  let (files, warnings) := tree.sourceFiles config roots
  let (results, notices, tree) := scanFiles rules mode files tree
  (results, warnings ++ notices, tree)

/-! ## As JSON -/

/-- An edit as JSON. -/
def TextEdit.toJson (edit : TextEdit) : Value :=
  .object [
    ("start", .nat edit.start),
    ("end", .nat edit.stop),
    ("replacement", .string (String.ofList edit.replacement))]

/-- A finding as JSON. -/
def Finding.toJson (finding : Finding) : Value :=
  .object [
    ("rule", .string finding.rule),
    ("severity", .string finding.severity.word),
    ("line", .nat finding.line),
    ("column", .nat finding.column),
    ("matched", .string (String.ofList finding.matched)),
    ("message", .string finding.message),
    ("fix", .ofOption TextEdit.toJson finding.fix)]

/-- The findings in a file as JSON. -/
def FileFindings.toJson (found : FileFindings) : Value :=
  .object [
    ("path", .string found.path.spelling),
    ("findings", .array (found.findings.map (·.toJson))),
    ("fixes_applied", .nat found.fixesApplied)]

end SourceRepair
