import SourceRepair.Report.Instant
import SourceRepair.Report.Validation

/-!
# Summaries of repair runs

A summary says what a run found, what it did to each file and how the validation went. It is saved
as indented JSON with its fields in a fixed order, and can be read back; unknown fields are skipped
then, and the validation and the reason for skipping a file may be missing.
-/

namespace SourceRepair

open Json

/-- What a run did to one file. -/
structure FileOutcome where
  file : Path
  diagnostics : Nat
  editsApplied : Nat
  rules : List String
  written : Bool
  /-- Why the file was left alone, if it could not be read or written. -/
  skipped : Option String
  deriving DecidableEq, Repr, Inhabited

/-- What a run did. -/
structure RepairSummary where
  targetCode : String
  dryRun : Bool
  totalDiagnostics : Nat
  targetDiagnostics : Nat
  filesProcessed : Nat
  filesSkipped : Nat
  editsApplied : Nat
  files : List FileOutcome
  /-- Only a live run is validated. -/
  validation : Option ValidationReport
  startTime : Instant
  endTime : Instant
  deriving DecidableEq, Repr, Inhabited

namespace FileOutcome

/-- The outcome as JSON. -/
def toJson (outcome : FileOutcome) : Value :=
  .object [
    ("file_path", .string outcome.file.spelling),
    ("diagnostics", .nat outcome.diagnostics),
    ("edits_applied", .nat outcome.editsApplied),
    ("rules", .strings outcome.rules),
    ("written", .bool outcome.written),
    ("skipped", .ofOption .string outcome.skipped)]

/-- Reads an outcome. -/
def decode : Decoder FileOutcome := fun outline => do
  let found ← outline.record [
    .of "file_path" .required .string,
    .of "diagnostics" .required ValidationReport.count,
    .of "edits_applied" .required ValidationReport.count,
    .of "rules" .required (.list .string),
    .of "written" .required .bool,
    .of "skipped" .optional (.nullable .string)]
  return {
    file := ⟨← readField found "file_path" .string⟩
    diagnostics := ← readField found "diagnostics" ValidationReport.count
    editsApplied := ← readField found "edits_applied" ValidationReport.count
    rules := ← readField found "rules" (.list .string)
    written := ← readField found "written" .bool
    skipped := (← readField? found "skipped" (.nullable .string)).join }

end FileOutcome

namespace RepairSummary

/-- Whether the run did what it set out to do; a dry run always did. -/
def success (summary : RepairSummary) : Bool :=
  summary.validation.all (·.success)

/-- An instant as JSON. -/
def timeJson (t : Instant) : Value :=
  .string (String.ofList t.toChars)

/-- Reads an instant. -/
def time : Decoder Instant :=
  .parsed Instant.ofChars?

/-- The summary as JSON. -/
def toJson (summary : RepairSummary) : Value :=
  .object [
    ("target_code", .string summary.targetCode),
    ("dry_run", .bool summary.dryRun),
    ("total_diagnostics", .nat summary.totalDiagnostics),
    ("target_diagnostics", .nat summary.targetDiagnostics),
    ("files_processed", .nat summary.filesProcessed),
    ("files_skipped", .nat summary.filesSkipped),
    ("edits_applied", .nat summary.editsApplied),
    ("files", .array (summary.files.map (·.toJson))),
    ("validation", .ofOption ValidationReport.toJson summary.validation),
    ("start_time", timeJson summary.startTime),
    ("end_time", timeJson summary.endTime)]

/-- The text that a summary is saved as. -/
def toText (summary : RepairSummary) : String :=
  summary.toJson.pretty

/-- Reads a summary. -/
def decode : Decoder RepairSummary := fun outline => do
  let found ← outline.record [
    .of "target_code" .required .string,
    .of "dry_run" .required .bool,
    .of "total_diagnostics" .required ValidationReport.count,
    .of "target_diagnostics" .required ValidationReport.count,
    .of "files_processed" .required ValidationReport.count,
    .of "files_skipped" .required ValidationReport.count,
    .of "edits_applied" .required ValidationReport.count,
    .of "files" .required (.list FileOutcome.decode),
    .of "validation" .optional (.nullable ValidationReport.decode),
    .of "start_time" .required time,
    .of "end_time" .required time]
  return {
    targetCode := ← readField found "target_code" .string
    dryRun := ← readField found "dry_run" .bool
    totalDiagnostics := ← readField found "total_diagnostics" ValidationReport.count
    targetDiagnostics := ← readField found "target_diagnostics" ValidationReport.count
    filesProcessed := ← readField found "files_processed" ValidationReport.count
    filesSkipped := ← readField found "files_skipped" ValidationReport.count
    editsApplied := ← readField found "edits_applied" ValidationReport.count
    files := ← readField found "files" (.list FileOutcome.decode)
    validation := (← readField? found "validation" (.nullable ValidationReport.decode)).join
    startTime := ← readField found "start_time" time
    endTime := ← readField found "end_time" time }

/-- Reads the text that a summary was saved as. -/
def ofText (text : String) : Except Fault RepairSummary :=
  decodeText decode text.toList

end RepairSummary

end SourceRepair
