import SourceRepair.Diagnostic.Source
import SourceRepair.Notice
import SourceRepair.Report.Validation

/-!
# Validating a live run

The diagnostics are collected anew and compared with the counts from before the run. Every count
that has risen is a warning.
-/

namespace SourceRepair

/-- The report on diagnostics that were collected after a run, given the counts from before it. -/
def ValidationReport.ofDiagnostics (targetCode : String) (beforeTarget beforeTotal : Nat)
    (after : List Diagnostic) : ValidationReport :=
  .ofCounts targetCode beforeTarget (Diagnostic.countCode targetCode after) beforeTotal
    after.length

/-- The warnings about a report. -/
def ValidationReport.notices (report : ValidationReport) : List Notice :=
  report.failures.map .countRose

/-- What a source answered to a question: the outcome, the warnings, and the state and the files
afterwards. -/
structure Answer (σ α : Type) where
  outcome : Except Failure α
  notices : List Notice
  state : σ
  tree : FileTree

/-- Collects the diagnostics anew and judges them against the counts from before. -/
def validate {σ : Type} (source : DiagnosticSource σ) (targetCode : String)
    (beforeTarget beforeTotal : Nat) (state : σ) (tree : FileTree) :
    Answer σ ValidationReport :=
  match source.collect state tree with
  | (.error failure, state, tree) => ⟨.error failure, [], state, tree⟩
  | (.ok after, state, tree) =>
    let report := ValidationReport.ofDiagnostics targetCode beforeTarget beforeTotal after
    ⟨.ok report, report.notices, state, tree⟩

end SourceRepair
