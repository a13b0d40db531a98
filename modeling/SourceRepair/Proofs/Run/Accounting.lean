import SourceRepair.Proofs.Report.Validation
import SourceRepair.Proofs.Run.Preview

/-!
# The accounts of a run

The counts of a summary come from different places: from the collected diagnostics, from the groups
by file, from the plan for each file, and from a second collecting. They agree whatever becomes of
the files: the outcome for a file is in order by itself (`FileOutcome.Accounted`), and a run over
groups has one for each (`fixGroups_accounted`, by induction on the groups). A failure on a file is
told in its outcome and ends nothing, so that a run fails only when collecting does
(`runRepair_accounts`).
-/

namespace SourceRepair

/-! ## One file -/

/-- What holds of the outcome for a file, however its repair went. -/
structure FileOutcome.Accounted (mode : WriteMode) (outcome : FileOutcome) : Prop where
  editsApplied_eq : outcome.editsApplied = outcome.rules.length
  editsApplied_le : outcome.editsApplied ≤ outcome.diagnostics
  /-- Files are written in a live run only, and then those with edits. -/
  written : outcome.written = true → mode = .write ∧ 0 < outcome.editsApplied
  /-- A file is skipped for a failure that is none of the run, and is left alone then. -/
  skipped : ∀ reason ∈ outcome.skipped, outcome.rules = [] ∧ outcome.written = false ∧
    ∃ failure : Failure, failure.isFatal = false ∧ reason = failure.message
  /-- In a live run a file that has edits and is not skipped is written. -/
  live : mode = .write → outcome.skipped = none → 0 < outcome.editsApplied → outcome.written = true

/-- A write fails with a failure on the file. -/
theorem FileTree.writeAtomically_eq_error {tree after : FileTree} {path : Path} {content : String}
    {failure : Failure} (h : tree.writeAtomically path content = (.error failure, after)) :
    ∃ cause, failure = .io path cause := by
  unfold FileTree.writeAtomically at h
  split at h
  · obtain ⟨h, -⟩ := Prod.mk.inj h
    exact ⟨_, (Except.error.inj h).symm⟩
  · obtain ⟨h, -⟩ := Prod.mk.inj h
    exact ⟨_, (Except.error.inj h).symm⟩
  · simp only at h
    split at h
    · obtain ⟨h, -⟩ := Prod.mk.inj h
      exact ⟨_, (Except.error.inj h).symm⟩
    · exact absurd (Prod.mk.inj h).1 (by simp)

namespace Catalog

variable {catalog : Catalog} {mode : WriteMode} {tree : FileTree} {file : Path}
  {batch : List Diagnostic}

/-- No more edits are applied to a file than there are diagnostics in it. -/
theorem fixContent_editsApplied_le (catalog : Catalog) (file : Path) (content : List Char)
    (batch : List Diagnostic) :
    (catalog.fixContent file content batch).editsApplied ≤ batch.length :=
  calc (catalog.fixContent file content batch).editsApplied
      ≤ (lineGroups batch).flatten.countP (pointsInto ((Line.ofText content).map (·.text))) :=
        planGroups_rules_length_le none fun _ hgroup _ hd _ he =>
          line_eq_of_mem_lineGroups hgroup hd he
    _ ≤ (lineGroups batch).flatten.length := List.countP_le_length
    _ = batch.length := (flatten_lineGroups_perm batch).length_eq

/-- A repair of a file fails with a failure on that file, or comes to its repaired content, which is
written in a live run if there are edits. -/
theorem fixFile_cases (catalog : Catalog) (mode : WriteMode) (file : Path)
    (batch : List Diagnostic) (tree : FileTree) :
    (∃ cause, (catalog.fixFile mode file batch tree).1 = .error (.io file cause)) ∨
      ∃ content, (catalog.fixFile mode file batch tree).1
        = .ok { catalog.fixContent file content batch with
          written := decide
            (mode = .write ∧ 0 < (catalog.fixContent file content batch).editsApplied) } := by
  unfold fixFile
  cases tree.readText file with
  | error cause => exact .inl ⟨cause, rfl⟩
  | ok content =>
    simp only
    by_cases hwrites :
        mode = .write ∧ 0 < (catalog.fixContent file content.toList batch).editsApplied
    · rw [if_pos hwrites]
      split
      · rename_i failure after hwrite
        obtain ⟨cause, rfl⟩ := FileTree.writeAtomically_eq_error hwrite
        exact .inl ⟨cause, rfl⟩
      · refine .inr ⟨content.toList, ?_⟩
        rw [decide_eq_true hwrites]
    · rw [if_neg hwrites]
      refine .inr ⟨content.toList, ?_⟩
      rw [decide_eq_false hwrites]
      rfl

/-- The outcome for a file is in order. -/
theorem fixFile_accounted (catalog : Catalog) (mode : WriteMode) (file : Path)
    (batch : List Diagnostic) (tree : FileTree) :
    (FileOutcome.ofRepair file batch (catalog.fixFile mode file batch tree).1).Accounted mode := by
  rcases catalog.fixFile_cases mode file batch tree with ⟨cause, h⟩ | ⟨content, h⟩ <;> rw [h]
  · exact {
      editsApplied_eq := rfl
      editsApplied_le := Nat.zero_le _
      written := fun hwritten => absurd hwritten (by simp [FileOutcome.ofRepair,
        FileOutcome.ofFailure])
      skipped := fun reason hreason =>
        ⟨rfl, rfl, .io file cause, rfl, (Option.some.inj hreason).symm⟩
      live := fun _ hskipped => absurd hskipped (by simp [FileOutcome.ofRepair,
        FileOutcome.ofFailure]) }
  · exact {
      editsApplied_eq := rfl
      editsApplied_le := catalog.fixContent_editsApplied_le file content batch
      written := of_decide_eq_true
      skipped := fun reason hreason => absurd hreason (by simp [FileOutcome.ofRepair,
        FileOutcome.ofResult])
      live := fun hmode _ hedits => decide_eq_true ⟨hmode, hedits⟩ }

/-! ## All files -/

/-- Whatever becomes of the files of groups, there is one outcome for each, and it is in order. -/
theorem fixGroups_accounted (catalog : Catalog) (mode : WriteMode)
    (groups : List (Path × List Diagnostic)) (tree : FileTree) :
    ((catalog.fixGroups mode groups tree).1.map fun outcome => (outcome.file, outcome.diagnostics))
        = (groups.map fun group => (group.1, group.2.length)) ∧
      ∀ outcome ∈ (catalog.fixGroups mode groups tree).1, outcome.Accounted mode := by
  induction groups generalizing tree with
  | nil => exact ⟨rfl, fun outcome houtcome => absurd houtcome List.not_mem_nil⟩
  | cons group more ih =>
    obtain ⟨houtcomes, -⟩ := fixGroups_cons catalog mode group more tree
    obtain ⟨hfiles, haccounted⟩ := ih (catalog.fixFile mode group.1 group.2 tree).2
    have hstep : ∀ repair, ((FileOutcome.ofRepair group.1 group.2 repair).file,
        (FileOutcome.ofRepair group.1 group.2 repair).diagnostics)
          = (group.1, group.2.length) := fun repair => by cases repair <;> rfl
    rw [houtcomes]
    refine ⟨?_, List.forall_mem_cons.mpr ⟨catalog.fixFile_accounted .., haccounted⟩⟩
    rw [List.map_cons, List.map_cons, hstep, hfiles]

end Catalog

/-! ## Summaries -/

/-- What holds of the summary of a run on the diagnostics that were collected at its start. -/
structure RepairSummary.Accounts (options : RepairOptions) (all : List Diagnostic)
    (summary : RepairSummary) : Prop where
  targetCode : summary.targetCode = options.targetCode
  dryRun : summary.dryRun = true ↔ options.mode = .preview
  totalDiagnostics : summary.totalDiagnostics = all.length
  targetDiagnostics :
    summary.targetDiagnostics = (Diagnostic.withCode options.targetCode all).length
  /-- The files stand in the strict order of their paths. -/
  increasing : summary.files.Pairwise fun outcome later => outcome.file.order later.file = .lt
  /-- The files are those of the targets. -/
  exists_iff : ∀ file, (∃ outcome ∈ summary.files, outcome.file.components = file) ↔
    ∃ d ∈ Diagnostic.withCode options.targetCode all, d.file.components = file
  /-- A file is listed with the number of targets in it. -/
  diagnostics : ∀ outcome ∈ summary.files, outcome.diagnostics
    = (Diagnostic.withCode options.targetCode all).countP
      fun d => d.file.components = outcome.file.components
  sum_diagnostics : (summary.files.map (·.diagnostics)).sum = summary.targetDiagnostics
  filesSkipped : summary.filesSkipped = (summary.files.filter (·.skipped.isSome)).length
  processed_add_skipped : summary.filesProcessed + summary.filesSkipped = summary.files.length
  editsApplied : summary.editsApplied = (summary.files.map (·.editsApplied)).sum
  accounted : ∀ outcome ∈ summary.files, outcome.Accounted options.mode

/-- The summary of any run over the groups of the targets is in order. -/
theorem RepairSummary.ofOutcomes_accounts (catalog : Catalog) (options : RepairOptions)
    (all : List Diagnostic) (validation : Option ValidationReport) (start stop : Instant)
    (tree : FileTree) :
    (RepairSummary.ofOutcomes options all
      (catalog.fixGroups options.mode (Diagnostic.targetGroups options.targetCode all) tree).1
      validation start stop).Accounts options all := by
  obtain ⟨hfiles, haccounted⟩ := catalog.fixGroups_accounted options.mode
    (Diagnostic.targetGroups options.targetCode all) tree
  have hgroups :=
    Diagnostic.groupByFile_partition (Diagnostic.withCode options.targetCode all)
  have hlength : Diagnostic.countCode options.targetCode all
      = (Diagnostic.withCode options.targetCode all).length := List.countP_eq_length_filter
  generalize (catalog.fixGroups options.mode (Diagnostic.targetGroups options.targetCode all)
    tree).1 = files at hfiles haccounted
  unfold Diagnostic.targetGroups at hfiles
  generalize Diagnostic.groupByFile (Diagnostic.withCode options.targetCode all) = groups
    at hfiles hgroups
  -- each outcome is that of a group, and each group has one
  have hpaths : files.map (·.file) = groups.map (·.1) := by
    have := congrArg (List.map Prod.fst) hfiles
    rwa [List.map_map, List.map_map] at this
  have hcounts : files.map (·.diagnostics) = groups.map (·.2.length) := by
    have := congrArg (List.map Prod.snd) hfiles
    rwa [List.map_map, List.map_map] at this
  have hgroup : ∀ outcome ∈ files, ∃ group ∈ groups,
      (group.1, group.2.length) = (outcome.file, outcome.diagnostics) := fun outcome houtcome => by
    have := List.mem_map_of_mem (f := fun outcome => (outcome.file, outcome.diagnostics)) houtcome
    rw [hfiles] at this
    exact List.mem_map.mp this
  exact {
    targetCode := rfl
    dryRun := beq_iff_eq
    totalDiagnostics := rfl
    targetDiagnostics := hlength
    increasing := by
      have hincreasing : (groups.map (·.1)).Pairwise fun p q => p.order q = .lt :=
        List.pairwise_map.mpr hgroups.increasing
      rw [← hpaths] at hincreasing
      exact List.pairwise_map.mp hincreasing
    exists_iff := fun file => by
      have hcomponents : files.map (·.file.components) = groups.map (·.1.components) := by
        have := congrArg (List.map Path.components) hpaths
        rwa [List.map_map, List.map_map] at this
      have hmem : file ∈ files.map (·.file.components) ↔ file ∈ groups.map (·.1.components) := by
        rw [hcomponents]
      rw [List.mem_map, List.mem_map] at hmem
      rw [← hgroups.exists_iff]
      exact hmem
    diagnostics := fun outcome houtcome => by
      obtain ⟨group, hmem, heq⟩ := hgroup outcome houtcome
      obtain ⟨hfile, hcount⟩ := Prod.mk.inj heq
      rw [← hcount, hgroups.batch_eq group hmem, ← List.countP_eq_length_filter, hfile]
    sum_diagnostics := by
      show (files.map (·.diagnostics)).sum = Diagnostic.countCode options.targetCode all
      rw [hcounts, hgroups.sum_length, hlength]
    filesSkipped := rfl
    processed_add_skipped := Nat.sub_add_cancel (List.length_filter_le _ files)
    editsApplied := by
      show files.foldr (fun file edits => file.editsApplied + edits) 0
        = (files.map (·.editsApplied)).sum
      rw [List.sum_eq_foldr, List.foldr_map]
    accounted := haccounted }

/-! ## Runs -/

/-- Every answer of a script has fewer diagnostics than a signed word counts, as every list in
memory has. -/
def Script.Countable (script : Script) : Prop :=
  ∀ all, .ok all ∈ script.responses → all.length < signedLimit

namespace Script

variable {script : Script} {all after : List Diagnostic}

theorem collect_source (script : Script) (tree : FileTree) :
    source.collect script tree = (script.next.1, script.next.2, tree) := rfl

/-- Each question counts. -/
theorem calls_next (script : Script) : script.next.2.calls = script.calls + 1 := by
  obtain ⟨responses, calls⟩ := script
  cases responses <;> rfl

/-- Diagnostics that a script answers with are an answer of the script. -/
theorem mem_of_next (h : script.next.1 = .ok all) : .ok all ∈ script.responses := by
  obtain ⟨responses, calls⟩ := script
  cases responses with
  | nil => exact absurd h (by simp [next])
  | cons response more => exact List.mem_cons.mpr (.inl h.symm)

/-- The answers left after a question are answers of the script. -/
theorem responses_next_subset (script : Script) :
    script.next.2.responses ⊆ script.responses := by
  obtain ⟨responses, calls⟩ := script
  cases responses with
  | nil => exact List.Subset.refl _
  | cons response more => exact List.subset_cons_self _ _

end Script

/-- The judgement on the diagnostics before and after a run, where all of them fit in memory. -/
theorem ValidationReport.ofDiagnostics_success (code : String) {all after : List Diagnostic}
    (hall : all.length < signedLimit) (hafter : after.length < signedLimit) :
    (ofDiagnostics code (Diagnostic.withCode code all).length all.length after).success = true ↔
      (Diagnostic.withCode code after).length ≤ (Diagnostic.withCode code all).length ∧
        after.length ≤ all.length := by
  have htargets : ∀ diagnostics : List Diagnostic,
      (Diagnostic.withCode code diagnostics).length ≤ diagnostics.length :=
    fun diagnostics => List.length_filter_le _ _
  have hcount : Diagnostic.countCode code after = (Diagnostic.withCode code after).length :=
    List.countP_eq_length_filter
  rw [ofDiagnostics, hcount]
  exact ofCounts_success code (Nat.lt_of_le_of_lt (htargets all) hall)
    (Nat.lt_of_le_of_lt (htargets after) hafter) hall hafter

/-- A run over a script whose answers fit in memory. If it comes to a summary, the first answer had
diagnostics, on which the summary is in order; the validation is there in a live run only, where it
judges the diagnostics of the second answer, and the run is a success if it is not there or if
neither count has risen; each answer asked for is one call. If the run fails, it is because the
first answer is a failure, and the files are as they were, or because the run is live and the second
answer is one. So no failure on a file ends a run. -/
theorem runRepair_accounts (catalog : Catalog) (options : RepairOptions) (start stop : Instant)
    (script : Script) (tree : FileTree) (hcountable : script.Countable) :
    let answer := runRepair Script.source catalog options start stop script tree
    (∀ summary, answer.outcome = .ok summary → ∃ all, script.next.1 = .ok all ∧
      summary.Accounts options all ∧
      ((options.mode = .preview ∧ summary.validation = none ∧ summary.success = true ∧
          answer.state.calls = script.calls + 1) ∨
        (options.mode = .write ∧ ∃ after, script.next.2.next.1 = .ok after ∧
          summary.validation = some (.ofDiagnostics options.targetCode
            (Diagnostic.withCode options.targetCode all).length all.length after) ∧
          (summary.success = true ↔
            (Diagnostic.withCode options.targetCode after).length
                ≤ (Diagnostic.withCode options.targetCode all).length ∧
              after.length ≤ all.length) ∧
          answer.state.calls = script.calls + 2))) ∧
    ∀ failure, answer.outcome = .error failure →
      (script.next.1 = .error failure ∧ answer.tree = tree) ∨
        (options.mode = .write ∧ (∃ all, script.next.1 = .ok all) ∧
          script.next.2.next.1 = .error failure) := by
  obtain ⟨code, mode⟩ := options
  intro answer
  have hcalls : script.next.2.calls = script.calls + 1 := script.calls_next
  cases hfirst : script.next.1 with
  | error failure =>
    have hanswer : answer = ⟨.error failure, [], script.next.2, tree⟩ := by
      show runRepair _ _ _ _ _ _ _ = _
      rw [runRepair, Script.collect_source, hfirst]
    rw [hanswer]
    refine ⟨fun summary h => absurd h (by simp), fun failure' h => .inl ⟨?_, rfl⟩⟩
    rw [Except.error.inj h]
  | ok all =>
    have hcollect : Script.source.collect script tree = (.ok all, script.next.2, tree) := by
      rw [Script.collect_source, hfirst]
    cases mode with
    | preview =>
      have hanswer : answer = _ := runRepair_preview hcollect
      rw [hanswer]
      refine ⟨fun summary h => ?_, fun failure h => absurd h (by simp)⟩
      obtain rfl := Except.ok.inj h
      exact ⟨all, rfl, RepairSummary.ofOutcomes_accounts catalog ⟨code, .preview⟩ all none start
        stop tree, .inl ⟨rfl, rfl, rfl, hcalls⟩⟩
    | write =>
      generalize hlive : catalog.fixGroups .write (Diagnostic.targetGroups code all) tree = live
      cases hsecond : script.next.2.next.1 with
      | error failure =>
        have hanswer : answer.outcome = .error failure := by
          show (runRepair _ _ _ _ _ _ _).outcome = _
          rw [runRepair, hcollect]
          simp only [validate, Script.collect_source, hsecond]
          rfl
        rw [hanswer]
        refine ⟨fun summary h => absurd h (by simp), fun failure' h => .inr ⟨rfl, ⟨all, rfl⟩, ?_⟩⟩
        rw [Except.error.inj h]
      | ok after =>
        have hcollect' : Script.source.collect script.next.2 live.2.2
            = (.ok after, script.next.2.next.2, live.2.2) := by
          rw [Script.collect_source, hsecond]
        rw [← hlive] at hcollect'
        have hanswer : answer = _ := runRepair_write hcollect hcollect'
        rw [hanswer]
        refine ⟨fun summary h => ?_, fun failure h => absurd h (by simp)⟩
        obtain rfl := Except.ok.inj h
        refine ⟨all, rfl, RepairSummary.ofOutcomes_accounts catalog ⟨code, .write⟩ all _ start
          stop tree, .inr ⟨rfl, after, rfl, rfl, ?_, ?_⟩⟩
        · have hall := hcountable all (Script.mem_of_next hfirst)
          have hafter := hcountable after
            (script.responses_next_subset (Script.mem_of_next hsecond))
          exact ValidationReport.ofDiagnostics_success code hall hafter
        · rw [Script.calls_next, hcalls]

/-- Of two files, one does not exist, and from the other one a comma is removed: the run comes to a
summary, and to a success. -/
theorem runRepair_accounts_twoFiles :
    let catalog := Catalog.empty.insertUniversal TypeScript.duplicateComma
    let tree : FileTree := ⟨[], [(["b"], .ofText "x,,y\n")]⟩
    let all : List Diagnostic := [⟨⟨"b"⟩, 1, 2, "E", ""⟩, ⟨⟨"a"⟩, 1, 2, "E", ""⟩]
    let script : Script := ⟨[.ok all, .ok []], 0⟩
    let answer := runRepair Script.source catalog ⟨"E", .write⟩ default default script tree
    script.Countable ∧ ∃ summary, answer.outcome = .ok summary ∧
      summary.Accounts ⟨"E", .write⟩ all ∧ summary.success = true ∧ answer.state.calls = 2 := by
  intro catalog tree all script answer
  have hcountable : script.Countable := by
    intro answered h
    rcases List.mem_pair.mp h with h | h <;> obtain rfl := Except.ok.inj h <;> decide
  obtain ⟨hsummary, hfailure⟩ :=
    runRepair_accounts catalog ⟨"E", .write⟩ default default script tree hcountable
  refine ⟨hcountable, ?_⟩
  cases houtcome : answer.outcome with
  | error failure =>
    rcases hfailure failure houtcome with ⟨h, -⟩ | ⟨-, -, h⟩ <;> exact absurd h (by simp [script,
      Script.next])
  | ok summary =>
    obtain ⟨all', hall, haccounts, ⟨hmode, -⟩ | ⟨-, after, hafter, -, hsuccess, hcalls⟩⟩ :=
      hsummary summary houtcome
    · exact absurd hmode (by simp)
    · obtain rfl := Except.ok.inj hall
      obtain rfl := Except.ok.inj hafter
      refine ⟨summary, rfl, haccounts, hsuccess.mpr ?_, hcalls⟩
      decide

end SourceRepair
