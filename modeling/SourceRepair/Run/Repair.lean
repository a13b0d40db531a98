import SourceRepair.Report.Summary
import SourceRepair.Run.File
import SourceRepair.Run.Validation

/-!
# Repair runs

A run collects the diagnostics of a project, repairs the files that the target code's diagnostics
are in, one after the other, and, if it writes, collects again to see that nothing got worse. A file
that cannot be read or written is skipped with a warning. A failure to collect ends the run.
-/

namespace SourceRepair

/-- What a run is to do. -/
structure RepairOptions where
  targetCode : String
  mode : WriteMode
  deriving DecidableEq, Repr, Inhabited

/-- What happened to a file that was repaired. -/
def FileOutcome.ofResult (file : Path) (batch : List Diagnostic) (result : EditResult) :
    FileOutcome where
  file := file
  diagnostics := batch.length
  editsApplied := result.editsApplied
  rules := result.rules
  written := result.written
  skipped := none

/-- What happened to a file that was left alone. -/
def FileOutcome.ofFailure (file : Path) (batch : List Diagnostic) (failure : Failure) :
    FileOutcome where
  file := file
  diagnostics := batch.length
  editsApplied := 0
  rules := []
  written := false
  skipped := some failure.message

/-- Repairs the files of groups of diagnostics one after the other. Repairing a file fails only on
that file. -/
def Catalog.fixGroups (catalog : Catalog) (mode : WriteMode) :
    List (Path × List Diagnostic) → FileTree → List FileOutcome × List Notice × FileTree
  | [], tree => ([], [], tree)
  | (file, batch) :: groups, tree =>
    let (outcome, tree) := catalog.fixFile mode file batch tree
    let (outcomes, notices, tree) := catalog.fixGroups mode groups tree
    match outcome with
    | .ok result => (.ofResult file batch result :: outcomes, notices, tree)
    | .error failure =>
      (.ofFailure file batch failure :: outcomes, .skipping file failure :: notices, tree)

/-- The summary of a run on collected diagnostics. -/
def RepairSummary.ofOutcomes (options : RepairOptions) (all : List Diagnostic)
    (files : List FileOutcome) (validation : Option ValidationReport) (start stop : Instant) :
    RepairSummary :=
  let skipped := (files.filter (·.skipped.isSome)).length
  { targetCode := options.targetCode
    dryRun := options.mode == .preview
    totalDiagnostics := all.length
    targetDiagnostics := Diagnostic.countCode options.targetCode all
    filesProcessed := files.length - skipped
    filesSkipped := skipped
    editsApplied := files.foldr (fun file edits => file.editsApplied + edits) 0
    files
    validation
    startTime := start
    endTime := stop }

/-- The warning that nothing can be repaired. -/
def Catalog.noRulesNotices (catalog : Catalog) (code : String) : List Notice :=
  if (catalog.rulesFor code).isEmpty then [.noRules code] else []

/-- Runs one repair of a code over a project. -/
def runRepair {σ : Type} (source : DiagnosticSource σ) (catalog : Catalog)
    (options : RepairOptions) (start stop : Instant) (state : σ) (tree : FileTree) :
    Answer σ RepairSummary :=
  match source.collect state tree with
  | (.error failure, state, tree) => ⟨.error failure, [], state, tree⟩
  | (.ok all, state, tree) =>
    let targets := Diagnostic.withCode options.targetCode all
    let (files, notices, tree) :=
      catalog.fixGroups options.mode (Diagnostic.groupByFile targets) tree
    let notices := catalog.noRulesNotices options.targetCode ++ notices
    match options.mode with
    | .preview => ⟨.ok (.ofOutcomes options all files none start stop), notices, state, tree⟩
    | .write =>
      let answer := validate source options.targetCode targets.length all.length state tree
      { answer with
        notices := notices ++ answer.notices
        outcome := answer.outcome.map fun report =>
          .ofOutcomes options all files (some report) start stop }

/-- Saves a summary to a file. -/
def RepairSummary.save (summary : RepairSummary) (path : Path) (tree : FileTree) :
    Except Failure FileTree :=
  match tree.writeText path summary.toText with
  | .error cause => .error (.io path cause)
  | .ok tree => .ok tree

end SourceRepair
