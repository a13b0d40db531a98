import SourceRepair.Proofs.Diagnostic.Grouping
import SourceRepair.Proofs.Run.File
import SourceRepair.Run.Repair
import SourceRepair.TypeScript.Rules

/-!
# A live run does what its preview shows

A preview repairs every file in one and the same tree. A live run repairs each file in the tree that
the files before have left. The two agree because a repair writes at one place only, and no other
file of the run is at that place: so each file is still repaired as in the tree at the start
(`LiveRun`, by induction on the groups), and the run as a whole comes to a replacement of the edited
files, each by its own repair.
-/

namespace SourceRepair

/-- The outcome of a live repair, given that of its preview. -/
def FileOutcome.markWritten (outcome : FileOutcome) : FileOutcome :=
  { outcome with written := decide (0 < outcome.editsApplied) }

/-- The outcome for a file, given what its repair came to. -/
def FileOutcome.ofRepair (file : Path) (batch : List Diagnostic) :
    Except Failure EditResult → FileOutcome
  | .ok result => .ofResult file batch result
  | .error failure => .ofFailure file batch failure

namespace FileTree

/-- No two of the paths name one entry, unless they have the same components, and none of them names
a link. -/
structure NamesDistinct (tree : FileTree) (paths : List Path) : Prop where
  notLink : ∀ p ∈ paths, tree.NotLink p
  apart : ∀ p ∈ paths, ∀ q ∈ paths, p.components ≠ q.components → tree.Apart p q

end FileTree

namespace Catalog

open FileTree (SameShape)

variable {catalog : Catalog} {tree other : FileTree} {groups : List (Path × List Diagnostic)}

/-! ## Groups -/

/-- The outcome of repairing the file of one group in a tree. -/
def outcomeIn (catalog : Catalog) (tree : FileTree) (group : Path × List Diagnostic) :
    FileOutcome :=
  .ofRepair group.1 group.2 (catalog.repairIn tree group.1 group.2)

theorem fixGroups_cons (catalog : Catalog) (mode : WriteMode) (group : Path × List Diagnostic)
    (groups : List (Path × List Diagnostic)) (tree : FileTree) :
    let step := catalog.fixFile mode group.1 group.2 tree
    let rest := catalog.fixGroups mode groups step.2
    (catalog.fixGroups mode (group :: groups) tree).1
        = .ofRepair group.1 group.2 step.1 :: rest.1 ∧
      (catalog.fixGroups mode (group :: groups) tree).2.2 = rest.2.2 := by
  obtain ⟨file, batch⟩ := group
  simp only [fixGroups]
  split
  · rename_i hstep
    rw [hstep]
    exact ⟨rfl, rfl⟩
  · rename_i hstep
    rw [hstep]
    exact ⟨rfl, rfl⟩

/-- A preview repairs each file in the tree as it is, and leaves it so. -/
theorem fixGroups_preview (catalog : Catalog) (groups : List (Path × List Diagnostic))
    (tree : FileTree) :
    (catalog.fixGroups .preview groups tree).1 = groups.map (catalog.outcomeIn tree) ∧
      (catalog.fixGroups .preview groups tree).2.2 = tree := by
  induction groups with
  | nil => exact ⟨rfl, rfl⟩
  | cons group more ih =>
    obtain ⟨houtcomes, htree⟩ := fixGroups_cons catalog .preview group more tree
    rw [fixFile_preview] at houtcomes htree
    rw [houtcomes, htree, ih.1, ih.2]
    exact ⟨rfl, rfl⟩

/-- Every write that a live run over the groups needs succeeds, in the tree at that time. -/
def WritesSucceed (catalog : Catalog) : List (Path × List Diagnostic) → FileTree → Prop
  | [], _ => True
  | (file, batch) :: groups, tree =>
    catalog.WriteSucceeds tree file batch ∧
      WritesSucceed catalog groups (catalog.fixFile .write file batch tree).2

/-- What a live run over groups comes to, told from the tree it starts in alone. -/
structure LiveRun (catalog : Catalog) (tree : FileTree) (groups : List (Path × List Diagnostic))
    (live : List FileOutcome × List Notice × FileTree) : Prop where
  /-- Each file is repaired as if it were the only one. -/
  outcomes : live.1 = groups.map fun group => (catalog.outcomeIn tree group).markWritten
  shape : SameShape tree live.2.2
  /-- An edited file holds its repaired content, with the mode it had. -/
  edited : ∀ group ∈ groups, ∀ (place : Place) (content : String) (mode : Mode),
    tree.locate true group.1 = .ok (place, .file content.toUTF8 mode) →
    0 < (catalog.fixContent group.1 content.toList group.2).editsApplied →
    FileTree.entry? live.2.2 place = some (.file
      (String.ofList (catalog.fixContent group.1 content.toList group.2).finalContent).toUTF8 mode)
  /-- Nothing else has changed. -/
  kept : ∀ place, (∀ group ∈ groups, ∀ entry, tree.locate true group.1 = .ok (place, entry) →
    (catalog.outcomeIn tree group).editsApplied = 0) →
      FileTree.entry? live.2.2 place = tree.entry? place

/-- The outcome for a file counts the edits of its repair. -/
theorem outcomeIn_editsApplied {file : Path} {batch : List Diagnostic} {place : Place}
    {content : String} {mode : Mode}
    (h : tree.locate true file = .ok (place, .file content.toUTF8 mode)) :
    (catalog.outcomeIn tree (file, batch)).editsApplied
      = (catalog.fixContent file content.toList batch).editsApplied := by
  unfold outcomeIn repairIn
  rw [FileTree.readText_of_locate h]
  rfl

/-- A file that the path leads to in both trees has the same outcome in both. -/
theorem outcomeIn_congr {group : Path × List Diagnostic}
    (h : other.locate true group.1 = tree.locate true group.1) :
    catalog.outcomeIn other group = catalog.outcomeIn tree group := by
  unfold outcomeIn
  rw [repairIn_congr h]

/-! ### One step of a live run -/

section LiveStep

variable {file later : Path} {batch : List Diagnostic} {step : Except Failure EditResult × FileTree}

/-- The outcome of a live step is that of the preview, with what was written marked. -/
theorem LiveStep.outcome (h : LiveStep catalog tree file batch step) :
    FileOutcome.ofRepair file batch step.1
      = (catalog.outcomeIn tree (file, batch)).markWritten := by
  cases h with
  | kept hnone =>
    unfold outcomeIn
    unfold repairIn at hnone ⊢
    cases hread : tree.readText file with
    | error cause => rfl
    | ok content =>
      rw [hread] at hnone
      have hzero : (catalog.fixContent file content.toList batch).editsApplied = 0 := hnone _ rfl
      simp only [FileOutcome.ofRepair, FileOutcome.ofResult, FileOutcome.markWritten, hzero]
      rfl
  | @written place content mode after hlocate hedits hput =>
    unfold outcomeIn repairIn
    rw [FileTree.readText_of_locate hlocate]
    simp only [FileOutcome.ofRepair, FileOutcome.ofResult, FileOutcome.markWritten, hedits,
      decide_true]
    rfl

/-- A live step changes no more than what files hold. -/
theorem LiveStep.sameShape (h : LiveStep catalog tree file batch step) : SameShape tree step.2 := by
  cases h with
  | kept _ => exact SameShape.refl tree
  | written hlocate _ hput => exact hput.sameShape (FileTree.entry?_of_locate hlocate)

/-- A live step writes the repaired content. -/
theorem LiveStep.edited (h : LiveStep catalog tree file batch step) {place : Place}
    {content : String} {mode : Mode}
    (hlocate : tree.locate true file = .ok (place, .file content.toUTF8 mode))
    (hedits : 0 < (catalog.fixContent file content.toList batch).editsApplied) :
    FileTree.entry? step.2 place = some (.file
      (String.ofList (catalog.fixContent file content.toList batch).finalContent).toUTF8 mode) := by
  cases h with
  | kept hnone =>
    have hzero := hnone (catalog.fixContent file content.toList batch) (by
      unfold repairIn
      rw [FileTree.readText_of_locate hlocate])
    omega
  | @written place' content' mode' after hlocate' _ hput =>
    rw [hlocate] at hlocate'
    obtain ⟨rfl, hbytes, rfl⟩ : place = place' ∧ content.toUTF8 = content'.toUTF8 ∧
        mode = mode' := by simpa using hlocate'
    obtain rfl : content = content' := String.toByteArray_inj.mp hbytes
    exact hput.entry?_self

/-- A live step writes nowhere else. -/
theorem LiveStep.kept_elsewhere (h : LiveStep catalog tree file batch step) {place : Place}
    (hplace : ∀ entry, tree.locate true file = .ok (place, entry) →
      (catalog.outcomeIn tree (file, batch)).editsApplied = 0) :
    FileTree.entry? step.2 place = tree.entry? place := by
  cases h with
  | kept _ => rfl
  | @written place' content mode after hlocate hedits hput =>
    refine hput.entry?_of_ne ?_
    rintro rfl
    have hzero := hplace _ hlocate
    rw [outcomeIn_editsApplied hlocate] at hzero
    exact absurd hzero (Nat.ne_of_gt hedits)

/-- A path that names something else is found as before. -/
theorem LiveStep.locate_eq (h : LiveStep catalog tree file batch step) (hfile : tree.NotLink file)
    (hlater : tree.NotLink later)
    (hapart : tree.Apart file later) (follow : Bool) :
    step.2.locate follow later = tree.locate follow later :=
  h.sameShape.locate_eq_of_apart hfile hlater hapart
    (fun _ hnot => h.kept_elsewhere fun entry hled => absurd hled (hnot entry)) follow

end LiveStep

/-! ### All steps -/

/-- A live run over groups whose files are apart. The induction is on the groups; what carries it
is that the files still to come are found as in the tree at the start. -/
theorem fixGroups_write (hlink : ∀ group ∈ groups, tree.NotLink group.1)
    (hapart : groups.Pairwise fun group later => tree.Apart group.1 later.1)
    (hwrites : catalog.WritesSucceed groups tree) :
    LiveRun catalog tree groups (catalog.fixGroups .write groups tree) := by
  induction groups generalizing tree with
  | nil =>
    exact {
      outcomes := rfl
      shape := SameShape.refl tree
      edited := fun group hgroup => absurd hgroup List.not_mem_nil
      kept := fun place _ => rfl }
  | cons group more ih =>
    obtain ⟨file, batch⟩ := group
    obtain ⟨hwrite, hwrites⟩ := hwrites
    obtain ⟨hfirst, hmore⟩ := List.pairwise_cons.mp hapart
    have hfile : tree.NotLink file := hlink (file, batch) List.mem_cons_self
    have hothers : ∀ later ∈ more, tree.NotLink later.1 := fun later hmem =>
      hlink later (List.mem_cons_of_mem _ hmem)
    have hstep := fixFile_write hfile hwrite
    obtain ⟨houtcomes, htree⟩ := fixGroups_cons catalog .write (file, batch) more tree
    simp only at houtcomes htree
    generalize catalog.fixFile .write file batch tree = step at *
    have hfound : ∀ later ∈ more, ∀ follow,
        step.2.locate follow later.1 = tree.locate follow later.1 := fun later hmem =>
      hstep.locate_eq hfile (hothers later hmem) (hfirst later hmem)
    have hrun : LiveRun catalog step.2 more (catalog.fixGroups .write more step.2) :=
      ih (fun later hmem => (hothers later hmem).congr (hfound later hmem false))
        (hmore.imp_of_mem fun hgroup hlater hne =>
          hne.congr (hfound _ hgroup false) (hfound _ hlater false)) hwrites
    exact {
      outcomes := by
        rw [houtcomes, hrun.outcomes, hstep.outcome, List.map_cons]
        congr 1
        refine List.map_congr_left fun later hmem => ?_
        rw [outcomeIn_congr (hfound later hmem true)]
      shape := by
        rw [htree]
        exact hstep.sameShape.trans hrun.shape
      edited := by
        intro group hgroup place content mode hlocate hedits
        rw [htree]
        rcases List.mem_cons.mp hgroup with rfl | hgroup
        · -- no later file is at the place that has just been written
          rw [hrun.kept place, hstep.edited hlocate hedits]
          intro later hmem entry hentry
          rw [hfound later hmem, FileTree.locate_true (hothers later hmem)] at hentry
          rw [FileTree.locate_true hfile] at hlocate
          exact absurd hentry (hfirst later hmem _ _ _ hlocate)
        · rw [← hfound group hgroup] at hlocate
          exact hrun.edited group hgroup place content mode hlocate hedits
      kept := by
        intro place hplace
        rw [htree, hrun.kept place, hstep.kept_elsewhere]
        · exact hplace (file, batch) List.mem_cons_self
        · intro later hmem entry hentry
          rw [outcomeIn_congr (hfound later hmem true)]
          rw [hfound later hmem] at hentry
          exact hplace later (List.mem_cons_of_mem _ hmem) entry hentry }

/-- The files that a live run edits are those whose outcome counts edits, and they are found where
they were, with their repaired content. -/
theorem LiveRun.locate_edited {live : List FileOutcome × List Notice × FileTree}
    (h : LiveRun catalog tree groups live) {group : Path × List Diagnostic}
    (hgroup : group ∈ groups) (hedits : 0 < (catalog.outcomeIn tree group).editsApplied) :
    ∃ (place : Place) (content : String) (mode : Mode),
      tree.locate true group.1 = .ok (place, .file content.toUTF8 mode) ∧
        live.2.2.locate true group.1 = .ok (place, .file
          (String.ofList (catalog.fixContent group.1 content.toList group.2).finalContent).toUTF8
            mode) := by
  cases hrepair : catalog.repairIn tree group.1 group.2 with
  | error failure =>
    rw [outcomeIn, hrepair] at hedits
    exact absurd hedits (Nat.lt_irrefl 0)
  | ok result =>
    rw [outcomeIn, hrepair] at hedits
    obtain ⟨place, content, mode, hlocate, rfl⟩ := locate_of_repairIn hrepair hedits
    refine ⟨place, content, mode, hlocate, ?_⟩
    have hentry := h.edited group hgroup place content mode hlocate hedits
    rw [FileTree.locate_eq_ok_iff] at hlocate ⊢
    rw [h.shape.resolve_eq, hlocate]
    simp only [Except.map, hentry]

end Catalog

/-! ## Runs -/

/-- The groups of diagnostics that a run for a code repairs. -/
def Diagnostic.targetGroups (code : String) (all : List Diagnostic) :
    List (Path × List Diagnostic) :=
  groupByFile (withCode code all)

section Runs

variable {σ : Type} {source : DiagnosticSource σ} {catalog : Catalog} {code : String}
  {all after : List Diagnostic} {state state' state'' : σ} {tree tree' tree'' : FileTree}
  {start stop : Instant}

/-- A preview whose collecting succeeds. -/
theorem runRepair_preview (h : source.collect state tree = (.ok all, state', tree')) :
    let shown := catalog.fixGroups .preview (Diagnostic.targetGroups code all) tree'
    runRepair source catalog ⟨code, .preview⟩ start stop state tree
      = ⟨.ok (.ofOutcomes ⟨code, .preview⟩ all shown.1 none start stop),
        catalog.noRulesNotices code ++ shown.2.1, state', shown.2.2⟩ := by
  intro shown
  unfold runRepair
  rw [h]
  rfl

/-- A live run whose collecting succeeds before and after the repairs. -/
theorem runRepair_write (h : source.collect state tree = (.ok all, state', tree'))
    (h' : source.collect state' (catalog.fixGroups .write (Diagnostic.targetGroups code all)
      tree').2.2 = (.ok after, state'', tree'')) :
    let live := catalog.fixGroups .write (Diagnostic.targetGroups code all) tree'
    let report := ValidationReport.ofDiagnostics code (Diagnostic.withCode code all).length
      all.length after
    runRepair source catalog ⟨code, .write⟩ start stop state tree
      = ⟨.ok (.ofOutcomes ⟨code, .write⟩ all live.1 (some report) start stop),
        catalog.noRulesNotices code ++ live.2.1 ++ report.notices, state'', tree''⟩ := by
  intro live report
  unfold Diagnostic.targetGroups at h'
  unfold runRepair validate
  rw [h]
  simp only
  rw [h']
  rfl

end Runs

/-- A preview leaves all files as they are. A live run that starts with the same diagnostics in the
same files has the same outcomes, each of them that of the file on its own, but for the marks of
what is written: every file with edits then holds its repaired content, and nothing else has
changed. The paths of the diagnostics are to name different entries and no links, and the writes are
to succeed; the sources are to leave the files alone, and the second answer is to be no failure. -/
theorem runRepair_write_eq_preview {σ τ : Type} {shown : DiagnosticSource σ}
    {live : DiagnosticSource τ} {catalog : Catalog} {code : String} {all after : List Diagnostic}
    {tree : FileTree} {s s' : σ} {t t' t'' : τ} (start stop start' stop' : Instant)
    (hshown : shown.collect s tree = (.ok all, s', tree))
    (hlive : live.collect t tree = (.ok all, t', tree))
    (hagain :
      let repaired := (catalog.fixGroups .write (Diagnostic.targetGroups code all) tree).2.2
      live.collect t' repaired = (.ok after, t'', repaired))
    (hnames : tree.NamesDistinct ((Diagnostic.withCode code all).map (·.file)))
    (hwrites : catalog.WritesSucceed (Diagnostic.targetGroups code all) tree) :
    let groups := Diagnostic.targetGroups code all
    let preview := runRepair shown catalog ⟨code, .preview⟩ start stop s tree
    let run := runRepair live catalog ⟨code, .write⟩ start' stop' t tree
    let report := ValidationReport.ofDiagnostics code (Diagnostic.withCode code all).length
      all.length after
    preview.tree = tree ∧
      preview.outcome = .ok (.ofOutcomes ⟨code, .preview⟩ all (groups.map (catalog.outcomeIn tree))
        none start stop) ∧
      run.outcome = .ok (.ofOutcomes ⟨code, .write⟩ all
        (groups.map fun group => (catalog.outcomeIn tree group).markWritten)
        (some report) start' stop') ∧
      (∀ group ∈ groups, 0 < (catalog.outcomeIn tree group).editsApplied →
        ∃ (place : Place) (content : String) (mode : Mode),
          tree.locate true group.1 = .ok (place, .file content.toUTF8 mode) ∧
            run.tree.locate true group.1 = .ok (place, .file
              (String.ofList
                (catalog.fixContent group.1 content.toList group.2).finalContent).toUTF8 mode)) ∧
      ∀ place, (∀ group ∈ groups, ∀ entry, tree.locate true group.1 = .ok (place, entry) →
        (catalog.outcomeIn tree group).editsApplied = 0) →
          run.tree.entry? place = tree.entry? place := by
  intro groups preview run report
  have hpaths : ∀ group ∈ groups, group.1 ∈ (Diagnostic.withCode code all).map (·.file) :=
    (Diagnostic.groupByFile_increasing _).2
  have hrun : catalog.LiveRun tree groups (catalog.fixGroups .write groups tree) := by
    refine Catalog.fixGroups_write (fun group hgroup => hnames.notLink _ (hpaths group hgroup))
      ((Diagnostic.groupByFile_pairwise _).imp_of_mem ?_) hwrites
    intro group later hgroup hlater hne
    exact hnames.apart _ (hpaths group hgroup) _ (hpaths later hlater) hne
  obtain ⟨houtcomes, htree⟩ := catalog.fixGroups_preview groups tree
  have hpreview : preview = _ := runRepair_preview hshown
  have hlive : run = _ := runRepair_write hlive hagain
  have hfiles : run.tree = (catalog.fixGroups .write groups tree).2.2 := congrArg Answer.tree hlive
  refine ⟨(congrArg Answer.tree hpreview).trans htree, ?_, ?_, ?_, ?_⟩
  · rw [← houtcomes]
    exact congrArg Answer.outcome hpreview
  · rw [← hrun.outcomes]
    exact congrArg Answer.outcome hlive
  · rw [hfiles]
    exact fun group hgroup => hrun.locate_edited hgroup
  · rw [hfiles]
    exact hrun.kept

/-- Of two files, one does not exist, and from the other one a comma is removed. -/
theorem runRepair_write_eq_preview_twoCommas :
    let catalog := Catalog.empty.insertUniversal TypeScript.duplicateComma
    let tree : FileTree := ⟨[], [(["b"], .ofText "x,,y\n")]⟩
    let all : List Diagnostic := [⟨⟨"a"⟩, 1, 2, "E", ""⟩, ⟨⟨"b"⟩, 1, 2, "E", ""⟩]
    let preview := runRepair Script.source catalog ⟨"E", .preview⟩ default default
      ⟨[.ok all], 0⟩ tree
    let run := runRepair Script.source catalog ⟨"E", .write⟩ default default
      ⟨[.ok all, .ok []], 0⟩ tree
    preview.tree = tree ∧
      run.tree.locate true ⟨"b"⟩ = .ok (["b"], .file "x,y\n".toUTF8 Entry.fileMode) := by
  intro catalog tree all preview run
  have hgroups : Diagnostic.targetGroups "E" all
      = [(⟨"a"⟩, [⟨⟨"a"⟩, 1, 2, "E", ""⟩]), (⟨"b"⟩, [⟨⟨"b"⟩, 1, 2, "E", ""⟩])] := by
    cbv
  have hmissing : tree.locate false ⟨"a"⟩ = .error .noEntry := by cbv
  have hfile : tree.locate false ⟨"b"⟩ = .ok (["b"], .ofText "x,,y\n") := by cbv
  have hnames : tree.NamesDistinct ((Diagnostic.withCode "E" all).map (·.file)) := by
    have hpaths : ∀ p ∈ (Diagnostic.withCode "E" all).map (·.file), p = ⟨"a"⟩ ∨ p = ⟨"b"⟩ :=
      fun p hp => List.mem_pair.mp hp
    refine ⟨fun p hp place target h => ?_, fun p hp q hq hne place entry entry' h h' => ?_⟩
    · rcases hpaths p hp with rfl | rfl
      · simp [hmissing] at h
      · simp [hfile, Entry.ofText] at h
    · rcases hpaths p hp with rfl | rfl
      · simp [hmissing] at h
      · rcases hpaths q hq with rfl | rfl
        · simp [hmissing] at h'
        · exact hne rfl
  have hread : tree.readText ⟨"a"⟩ = .error .noEntry := by cbv
  have hwrites : catalog.WritesSucceed (Diagnostic.targetGroups "E" all) tree := by
    have hwritten : ∀ text, (tree.writeAtomically ⟨"b"⟩ text).1 = .ok () := by
      intro text
      cbv
    have hsame : (catalog.fixFile .write ⟨"a"⟩ [⟨⟨"a"⟩, 1, 2, "E", ""⟩] tree).2 = tree := by
      rw [Catalog.fixFile, hread]
    rw [hgroups]
    refine ⟨fun result hrepair _ => ?_, fun result _ _ => ?_, trivial⟩
    · rw [Catalog.repairIn, hread] at hrepair
      exact absurd hrepair (by simp)
    · rw [hsame]
      exact hwritten _
  have hshown : Script.source.collect ⟨[.ok all], 0⟩ tree
      = (.ok all, ⟨[], 1⟩, tree) := rfl
  have hlive : Script.source.collect ⟨[.ok all, .ok []], 0⟩ tree
      = (.ok all, ⟨[.ok []], 1⟩, tree) := rfl
  obtain ⟨hpreview, -, -, hedited, -⟩ :=
    runRepair_write_eq_preview default default default default hshown hlive rfl hnames hwrites
  refine ⟨hpreview, ?_⟩
  have hreached : tree.locate true ⟨"b"⟩
      = .ok (["b"], .file "x,,y\n".toUTF8 Entry.fileMode) := by cbv
  have hgroup : (⟨"b"⟩, [⟨⟨"b"⟩, 1, 2, "E", ""⟩]) ∈ Diagnostic.targetGroups "E" all := by
    rw [hgroups]
    exact List.mem_cons_of_mem _ List.mem_cons_self
  have hcount : (catalog.fixContent ⟨"b"⟩ "x,,y\n".toList
      [⟨⟨"b"⟩, 1, 2, "E", ""⟩]).editsApplied = 1 := by cbv
  obtain ⟨place, content, mode, hlocate, hafter⟩ := hedited _ hgroup (by
    rw [Catalog.outcomeIn_editsApplied hreached, hcount]
    exact Nat.one_pos)
  rw [hreached] at hlocate
  obtain ⟨rfl, hbytes, rfl⟩ : ["b"] = place ∧ "x,,y\n".toUTF8 = content.toUTF8 ∧
      Entry.fileMode = mode := by simpa using hlocate
  obtain rfl := String.toByteArray_inj.mp hbytes
  have hfixed : (catalog.fixContent ⟨"b"⟩ "x,,y\n".toList
      [⟨⟨"b"⟩, 1, 2, "E", ""⟩]).finalContent = "x,y\n".toList := by cbv
  rw [hfixed] at hafter
  exact hafter

end SourceRepair
