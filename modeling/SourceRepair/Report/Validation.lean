import SourceRepair.Json.Decode
import SourceRepair.Json.Value
import SourceRepair.Diagnostic.CompilerText

/-!
# Validation of a live run

After a live run the diagnostics are counted again. The run is a success if neither the diagnostics
of the target code nor all diagnostics together have become more. Counts are 64-bit words, and their
differences signed 64-bit words, which wrap around.
-/

namespace SourceRepair

/-- The difference of two counts as a signed 64-bit word. -/
def wordDifference (a b : Nat) : Int :=
  Int.bmod ((a : Int) - b) Diagnostic.wordLimit

/-- The counts before and after a run, and the judgement on them. -/
structure ValidationReport where
  targetCode : String
  beforeTarget : Nat
  afterTarget : Nat
  beforeTotal : Nat
  afterTotal : Nat
  /-- How many diagnostics of the target code have gone; negative if there are more. -/
  netImprovement : Int
  success : Bool
  failures : List String
  deriving DecidableEq, Repr, Inhabited

namespace ValidationReport

/-- The complaint that a count has risen. -/
def rise (what : String) (before after : Nat) : String :=
  what ++ " diagnostics rose from " ++ toString before ++ " to " ++ toString after

/-- The report on the counts of a run. -/
def ofCounts (targetCode : String) (beforeTarget afterTarget beforeTotal afterTotal : Nat) :
    ValidationReport :=
  let reduction := wordDifference beforeTarget afterTarget
  let growth := wordDifference afterTotal beforeTotal
  let failures :=
    (if reduction < 0 then [rise targetCode beforeTarget afterTarget] else [])
      ++ if 0 < growth then [rise "total" beforeTotal afterTotal] else []
  { targetCode, beforeTarget, afterTarget, beforeTotal, afterTotal
    netImprovement := reduction
    success := failures.isEmpty
    failures }

open Json

/-- The report as JSON. -/
def toJson (report : ValidationReport) : Value :=
  .object [
    ("target_code", .string report.targetCode),
    ("before_target_count", .nat report.beforeTarget),
    ("after_target_count", .nat report.afterTarget),
    ("before_total_count", .nat report.beforeTotal),
    ("after_total_count", .nat report.afterTotal),
    ("net_improvement", .int report.netImprovement),
    ("success", .bool report.success),
    ("failures", .strings report.failures)]

/-- Reads a count. -/
def count : Decoder Nat :=
  .nat Diagnostic.wordLimit

/-- Reads a signed word. -/
def signedWord : Decoder Int :=
  .int (-Int.pow 2 63) (Int.pow 2 63 - 1)

/-- Reads a report. -/
def decode : Decoder ValidationReport := fun outline => do
  let found ← outline.record [
    .of "target_code" .required .string,
    .of "before_target_count" .required count,
    .of "after_target_count" .required count,
    .of "before_total_count" .required count,
    .of "after_total_count" .required count,
    .of "net_improvement" .required signedWord,
    .of "success" .required .bool,
    .of "failures" .required (.list .string)]
  return {
    targetCode := ← readField found "target_code" .string
    beforeTarget := ← readField found "before_target_count" count
    afterTarget := ← readField found "after_target_count" count
    beforeTotal := ← readField found "before_total_count" count
    afterTotal := ← readField found "after_total_count" count
    netImprovement := ← readField found "net_improvement" signedWord
    success := ← readField found "success" .bool
    failures := ← readField found "failures" (.list .string) }

end ValidationReport

end SourceRepair
