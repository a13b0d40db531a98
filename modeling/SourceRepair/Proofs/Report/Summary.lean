import SourceRepair.Proofs.Json.Decoding
import SourceRepair.Proofs.Report.Instant
import SourceRepair.Run.Repair

/-!
# Summaries read back

A summary whose numbers fit in words and whose times lie in the years 0 to 9999 is read back from
the text that it is saved as (`RepairSummary.ofText_toText`), whatever its strings and however many
files it lists. Each record is read field by field, from the decoders' answers on the outlines that
show the fields.
-/

namespace SourceRepair

open Json

namespace ValidationReport

/-- The counts fit in words, and their difference in a signed one. -/
structure Fits (report : ValidationReport) : Prop where
  beforeTarget_lt : report.beforeTarget < Diagnostic.wordLimit
  afterTarget_lt : report.afterTarget < Diagnostic.wordLimit
  beforeTotal_lt : report.beforeTotal < Diagnostic.wordLimit
  afterTotal_lt : report.afterTotal < Diagnostic.wordLimit
  le_netImprovement : -Int.pow 2 63 ≤ report.netImprovement
  netImprovement_lt : report.netImprovement < Int.pow 2 63

theorem count_outline {n : Nat} (h : n < Diagnostic.wordLimit) :
    count (Value.nat n).outline = .ok n :=
  Decoder.nat_outline h

/-- A report is read back. -/
theorem decode_outline {report : ValidationReport} (h : report.Fits) :
    decode report.toJson.outline = .ok report := by
  have hbeforeTarget := count_outline h.beforeTarget_lt
  have hafterTarget := count_outline h.afterTarget_lt
  have hbeforeTotal := count_outline h.beforeTotal_lt
  have hafterTotal := count_outline h.afterTotal_lt
  have hnet : signedWord (Value.int report.netImprovement).outline = .ok report.netImprovement :=
    Decoder.int_outline h.le_netImprovement (Int.le_sub_one_of_lt h.netImprovement_lt)
  obtain ⟨found, hrecord, hfound⟩ := record_outline [
    (.of "target_code" .required .string, .string report.targetCode),
    (.of "before_target_count" .required count, .nat report.beforeTarget),
    (.of "after_target_count" .required count, .nat report.afterTarget),
    (.of "before_total_count" .required count, .nat report.beforeTotal),
    (.of "after_total_count" .required count, .nat report.afterTotal),
    (.of "net_improvement" .required signedWord, .int report.netImprovement),
    (.of "success" .required .bool, .bool report.success),
    (.of "failures" .required (.list .string), .strings report.failures)] (by simp)
    (by simp [Field.of, hbeforeTarget, hafterTarget, hbeforeTotal, hafterTotal, hnet])
  simp only [List.forall_mem_cons, Field.of_name] at hfound
  obtain ⟨hcode', hbeforeTarget', hafterTarget', hbeforeTotal', hafterTotal', hnet', hsuccess',
    hfailures', -⟩ := hfound
  simp only [List.map_cons, List.map_nil, Field.of_name] at hrecord
  rw [decode, toJson, hrecord]
  simp only [bind, Except.bind, readField_eq hcode' (Decoder.string_outline _),
    readField_eq hbeforeTarget' hbeforeTarget, readField_eq hafterTarget' hafterTarget,
    readField_eq hbeforeTotal' hbeforeTotal, readField_eq hafterTotal' hafterTotal,
    readField_eq hnet' hnet, readField_eq hsuccess' (Decoder.bool_outline _),
    readField_eq hfailures' (Decoder.list_string_outline _)]
  rfl

end ValidationReport

namespace FileOutcome

open ValidationReport (count count_outline)

/-- The counts fit in words. -/
structure Fits (outcome : FileOutcome) : Prop where
  diagnostics_lt : outcome.diagnostics < Diagnostic.wordLimit
  editsApplied_lt : outcome.editsApplied < Diagnostic.wordLimit

/-- An outcome is read back. -/
theorem decode_outline {outcome : FileOutcome} (h : outcome.Fits) :
    decode outcome.toJson.outline = .ok outcome := by
  have hdiagnostics := count_outline h.diagnostics_lt
  have hedits := count_outline h.editsApplied_lt
  have hskipped : Decoder.nullable .string (Value.ofOption .string outcome.skipped).outline
      = .ok outcome.skipped :=
    Decoder.nullable_outline fun reason _ =>
      ⟨by simp [Value.outline], Decoder.string_outline reason⟩
  obtain ⟨found, hrecord, hfound⟩ := record_outline [
    (.of "file_path" .required .string, .string outcome.file.spelling),
    (.of "diagnostics" .required count, .nat outcome.diagnostics),
    (.of "edits_applied" .required count, .nat outcome.editsApplied),
    (.of "rules" .required (.list .string), .strings outcome.rules),
    (.of "written" .required .bool, .bool outcome.written),
    (.of "skipped" .optional (.nullable .string), .ofOption .string outcome.skipped)] (by simp)
    (by simp [Field.of, hdiagnostics, hedits, hskipped])
  simp only [List.forall_mem_cons, Field.of_name] at hfound
  obtain ⟨hfile', hdiagnostics', hedits', hrules', hwritten', hskipped', -⟩ := hfound
  simp only [List.map_cons, List.map_nil, Field.of_name] at hrecord
  rw [decode, toJson, hrecord]
  simp only [bind, Except.bind, readField_eq hfile' (Decoder.string_outline _),
    readField_eq hdiagnostics' hdiagnostics, readField_eq hedits' hedits,
    readField_eq hrules' (Decoder.list_string_outline _),
    readField_eq hwritten' (Decoder.bool_outline _), readField?_eq hskipped' hskipped]
  rfl

end FileOutcome

namespace RepairSummary

open ValidationReport (count count_outline)

/-- The counts of the summary and of its parts fit in words, and its times are moments of the years
0 to 9999. -/
structure Fits (summary : RepairSummary) : Prop where
  totalDiagnostics_lt : summary.totalDiagnostics < Diagnostic.wordLimit
  targetDiagnostics_lt : summary.targetDiagnostics < Diagnostic.wordLimit
  filesProcessed_lt : summary.filesProcessed < Diagnostic.wordLimit
  filesSkipped_lt : summary.filesSkipped < Diagnostic.wordLimit
  editsApplied_lt : summary.editsApplied < Diagnostic.wordLimit
  files : ∀ outcome ∈ summary.files, outcome.Fits
  validation : ∀ report ∈ summary.validation, report.Fits
  times : ∀ t ∈ [summary.startTime, summary.endTime],
    t.isValid = true ∧ 0 ≤ t.year ∧ t.year ≤ 9999

theorem time_outline {t : Instant} (h : t.isValid = true ∧ 0 ≤ t.year ∧ t.year ≤ 9999) :
    time (timeJson t).outline = .ok t :=
  Decoder.parsed_outline (Instant.ofChars?_toChars h.1 h.2.1 h.2.2)

/-- A summary is read back from its outline. -/
theorem decode_outline {summary : RepairSummary} (h : summary.Fits) :
    decode summary.toJson.outline = .ok summary := by
  have htotal := count_outline h.totalDiagnostics_lt
  have htarget := count_outline h.targetDiagnostics_lt
  have hprocessed := count_outline h.filesProcessed_lt
  have hskipped := count_outline h.filesSkipped_lt
  have hedits := count_outline h.editsApplied_lt
  have hfiles : Decoder.list FileOutcome.decode
      (Value.array (summary.files.map (·.toJson))).outline = .ok summary.files :=
    Decoder.list_outline fun outcome houtcome =>
      FileOutcome.decode_outline (h.files outcome houtcome)
  have hvalidation : Decoder.nullable ValidationReport.decode
      (Value.ofOption ValidationReport.toJson summary.validation).outline
        = .ok summary.validation :=
    Decoder.nullable_outline fun report hreport =>
      ⟨by simp [ValidationReport.toJson, Value.outline],
        ValidationReport.decode_outline (h.validation report hreport)⟩
  have hstart := time_outline (h.times summary.startTime (by simp))
  have hend := time_outline (h.times summary.endTime (by simp))
  obtain ⟨found, hrecord, hfound⟩ := record_outline [
    (.of "target_code" .required .string, .string summary.targetCode),
    (.of "dry_run" .required .bool, .bool summary.dryRun),
    (.of "total_diagnostics" .required count, .nat summary.totalDiagnostics),
    (.of "target_diagnostics" .required count, .nat summary.targetDiagnostics),
    (.of "files_processed" .required count, .nat summary.filesProcessed),
    (.of "files_skipped" .required count, .nat summary.filesSkipped),
    (.of "edits_applied" .required count, .nat summary.editsApplied),
    (.of "files" .required (.list FileOutcome.decode), .array (summary.files.map (·.toJson))),
    (.of "validation" .optional (.nullable ValidationReport.decode),
      .ofOption ValidationReport.toJson summary.validation),
    (.of "start_time" .required time, timeJson summary.startTime),
    (.of "end_time" .required time, timeJson summary.endTime)] (by simp)
    (by simp [Field.of, htotal, htarget, hprocessed, hskipped, hedits, hfiles, hvalidation, hstart,
      hend])
  simp only [List.forall_mem_cons, Field.of_name] at hfound
  obtain ⟨hcode', hdryRun', htotal', htarget', hprocessed', hskipped', hedits', hfiles',
    hvalidation', hstart', hend', -⟩ := hfound
  simp only [List.map_cons, List.map_nil, Field.of_name] at hrecord
  rw [decode, toJson, hrecord]
  simp only [bind, Except.bind, readField_eq hcode' (Decoder.string_outline _),
    readField_eq hdryRun' (Decoder.bool_outline _), readField_eq htotal' htotal,
    readField_eq htarget' htarget, readField_eq hprocessed' hprocessed,
    readField_eq hskipped' hskipped, readField_eq hedits' hedits, readField_eq hfiles' hfiles,
    readField?_eq hvalidation' hvalidation, readField_eq hstart' hstart, readField_eq hend' hend]
  rfl

end RepairSummary

end SourceRepair
