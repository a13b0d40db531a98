import SourceRepair.Proofs.Edit.Planning
import SourceRepair.Proofs.Edit.Splicing
import SourceRepair.Proofs.FileTree.Overwriting
import SourceRepair.Proofs.Rule.Rewriting
import SourceRepair.Proofs.Run.Preview
import SourceRepair.Proofs.TypeScript.StaticRules

/-!
# Repairs of what the files held when the diagnostics were collected

A live run repairs files one after the other, and reads each of them when its turn comes. What it
reads then is what the file held at the start, unless an earlier repair of the run has written to a
path that leads to the same file (`runRepair_plans_collected`). The groups are by the components of
the paths, which do not tell: with two spellings of one file the second group is planned for lines
that the first one has moved (`runRepair_rereads`).
-/

namespace SourceRepair

/-- The outcome of a repair is for the file repaired. -/
theorem FileOutcome.file_ofRepair (file : Path) (batch : List Diagnostic)
    (repair : Except Failure EditResult) : (ofRepair file batch repair).file = file := by
  cases repair <;> rfl

namespace Catalog

variable {catalog : Catalog} {tree : FileTree} {file path : Path} {batch : List Diagnostic}
  {groups : List (Path × List Diagnostic)} {found : Place} {entry : Entry}

/-- What a live repair of a file may come to. Only a write that succeeds changes the tree, and then
the content goes over what the path leads to. -/
inductive RepairStep (catalog : Catalog) (tree : FileTree) (file : Path)
    (batch : List Diagnostic) : Except Failure EditResult × FileTree → Prop where
  | unread {cause : IoCause} (hread : tree.readText file = .error cause) :
      RepairStep catalog tree file batch (.error (.io file cause), tree)
  | unchanged {content : String} (hread : tree.readText file = .ok content) :
      RepairStep catalog tree file batch (.ok (catalog.fixContent file content.toList batch), tree)
  | unwritten {content : String} {failure : Failure} (hread : tree.readText file = .ok content) :
      RepairStep catalog tree file batch (.error failure, tree)
  | written {content : String} {led : Place} {after : FileTree}
      (hread : tree.readText file = .ok content) (hover : tree.Overwrites file led after) :
      RepairStep catalog tree file batch
        (.ok { catalog.fixContent file content.toList batch with written := true }, after)

/-- Repairs that change a file are written, and what comes of that is the outcome. -/
theorem fixFile_write_of_edits {content : String} {outcome : Except Failure Unit}
    {after : FileTree} (hread : tree.readText file = .ok content)
    (hedits : 0 < (catalog.fixContent file content.toList batch).editsApplied)
    (hwrite : tree.writeAtomically file
      (String.ofList (catalog.fixContent file content.toList batch).finalContent)
      = (outcome, after)) :
    catalog.fixFile .write file batch tree
      = (outcome.map fun _ =>
          { catalog.fixContent file content.toList batch with written := true }, after) := by
  rw [fixFile, hread]
  simp only
  rw [if_pos ⟨trivial, hedits⟩, hwrite]
  cases outcome <;> rfl

/-- Every live repair of a file is such a step. -/
theorem fixFile_repairStep (catalog : Catalog) (file : Path) (batch : List Diagnostic)
    (tree : FileTree) :
    RepairStep catalog tree file batch (catalog.fixFile .write file batch tree) := by
  cases hread : tree.readText file with
  | error cause =>
    rw [fixFile, hread]
    exact .unread hread
  | ok content =>
    by_cases hedits : 0 < (catalog.fixContent file content.toList batch).editsApplied
    · cases hwrite : tree.writeAtomically file
        (String.ofList (catalog.fixContent file content.toList batch).finalContent) with
      | mk outcome after =>
        rw [fixFile_write_of_edits hread hedits hwrite]
        cases outcome with
        | error failure =>
          rw [FileTree.eq_of_writeAtomically_eq_error hwrite]
          exact .unwritten hread
        | ok done =>
          rcases FileTree.locate_of_readText hread with ⟨rfl, -⟩ | ⟨led, mode, hled⟩
          · -- there is nothing to repair in an empty file
            rw [String.toList_empty, fixContent_nil_editsApplied] at hedits
            exact absurd hedits (Nat.lt_irrefl 0)
          · exact .written hread (FileTree.Overwrites.of_write hled hwrite)
    · rw [fixFile, hread]
      simp only
      rw [if_neg fun h => hedits h.2]
      exact .unchanged hread

/-- The tree changes only by a write that is told. -/
theorem RepairStep.eq_or_overwrites {step : Except Failure EditResult × FileTree}
    (h : RepairStep catalog tree file batch step) :
    step.2 = tree ∨ (FileOutcome.ofRepair file batch step.1).written = true ∧
      ∃ led, tree.Overwrites file led step.2 := by
  cases h with
  | unread | unchanged | unwritten => exact .inl rfl
  | written _ hover => exact .inr ⟨rfl, _, hover⟩

/-- A repair that does not fail is that of the content that was read. -/
theorem RepairStep.eq_fixContent {step : Except Failure EditResult × FileTree}
    (h : RepairStep catalog tree file batch step) {content : String}
    (hread : tree.readText file = .ok content) {result : EditResult}
    (hresult : step.1 = .ok result) :
    result = { catalog.fixContent file content.toList batch with written := result.written } := by
  cases h with
  | unread | unwritten => exact absurd hresult (by simp)
  | unchanged hread' | written hread' =>
    obtain rfl := Except.ok.inj (hread.symm.trans hread')
    obtain rfl := Except.ok.inj hresult
    rfl

/-- What a path leads to stays as it is in a live run, if no path that is written to leads there.
The induction is on the groups; the paths still to come are followed back to the tree at the
start. -/
theorem fixGroups_locate (hwell : tree.WellFormed)
    (hfound : tree.locate true path = .ok (found, entry))
    (hother : ∀ outcome ∈ (catalog.fixGroups .write groups tree).1, outcome.written = true →
      ∀ entry, tree.locate true outcome.file ≠ .ok (found, entry)) :
    (catalog.fixGroups .write groups tree).2.2.locate true path = .ok (found, entry) := by
  induction groups generalizing tree with
  | nil => exact hfound
  | cons group more ih =>
    obtain ⟨houtcomes, htree⟩ := fixGroups_cons catalog .write group more tree
    rw [houtcomes] at hother
    rw [htree]
    obtain ⟨hfirst, hmore⟩ := List.forall_mem_cons.mp hother
    rcases (catalog.fixFile_repairStep group.1 group.2 tree).eq_or_overwrites with
      hkept | ⟨hwritten, led, hover⟩
    · rw [hkept] at hmore ⊢
      exact ih hwell hfound hmore
    · rw [FileOutcome.file_ofRepair] at hfirst
      have hne : found ≠ led := by
        rintro rfl
        obtain ⟨content, mode, hled⟩ := hover.leads
        exact hfirst hwritten _ hled
      refine ih (hover.wellFormed hwell) (hover.locate_eq hwell hfound hne)
        fun outcome houtcome hwritten entry' hentry => ?_
      exact hmore outcome houtcome hwritten entry'
        (hover.locate_of_locate hwell hfound hne hentry)

/-- Groups are repaired up to some group, and then from there on in the tree that this leaves. -/
theorem fixGroups_append (catalog : Catalog) (mode : WriteMode)
    (groups more : List (Path × List Diagnostic)) (tree : FileTree) :
    let before := catalog.fixGroups mode groups tree
    (catalog.fixGroups mode (groups ++ more) tree).1
      = before.1 ++ (catalog.fixGroups mode more before.2.2).1 := by
  induction groups generalizing tree with
  | nil => rfl
  | cons group groups ih =>
    obtain ⟨houtcomes, htree⟩ := fixGroups_cons catalog mode group groups tree
    obtain ⟨hall, -⟩ := fixGroups_cons catalog mode group (groups ++ more) tree
    simp only [List.cons_append, hall, houtcomes, htree, ih]

/-- The outcomes are for the files of the groups, in their order. -/
theorem map_file_fixGroups (catalog : Catalog) (mode : WriteMode)
    (groups : List (Path × List Diagnostic)) (tree : FileTree) :
    (catalog.fixGroups mode groups tree).1.map (·.file) = groups.map (·.1) := by
  induction groups generalizing tree with
  | nil => rfl
  | cons group groups ih =>
    rw [(fixGroups_cons catalog mode group groups tree).1, List.map_cons, List.map_cons, ih,
      FileOutcome.file_ofRepair]

end Catalog

section Runs

variable {σ : Type} {source : DiagnosticSource σ} {catalog : Catalog} {code : String}
  {all : List Diagnostic} {state state' : σ} {tree collected : FileTree} {start stop : Instant}
  {summary : RepairSummary}

/-- The files of a live run's summary are those of its groups. -/
theorem runRepair_write_files
    (hcollect : source.collect state tree = (.ok all, state', collected))
    (hrun : (runRepair source catalog ⟨code, .write⟩ start stop state tree).outcome = .ok summary) :
    summary.files
      = (catalog.fixGroups .write (Diagnostic.targetGroups code all) collected).1 := by
  unfold runRepair at hrun
  rw [hcollect] at hrun
  simp only at hrun
  generalize (validate source code _ all.length state' _).outcome = outcome at hrun
  cases outcome with
  | error failure => exact absurd hrun (by simp [Except.map])
  | ok report => exact congrArg RepairSummary.files (Except.ok.inj hrun).symm

/-- In a live run, a file that was found when the diagnostics were collected is repaired as it was
then, unless an earlier repair of the run has written to a path that led to the same file. -/
theorem runRepair_plans_collected
    (hcollect : source.collect state tree = (.ok all, state', collected))
    (hrun : (runRepair source catalog ⟨code, .write⟩ start stop state tree).outcome = .ok summary)
    (hwell : collected.WellFormed) {earlier later : List (Path × List Diagnostic)} {file : Path}
    {batch : List Diagnostic}
    (hgroups : Diagnostic.targetGroups code all = earlier ++ (file, batch) :: later)
    {place : Place} {entry : Entry} (hfile : collected.locate true file = .ok (place, entry))
    (hother : ∀ outcome ∈ summary.files.take earlier.length, outcome.written = true →
      ∀ entry, collected.locate true outcome.file ≠ .ok (place, entry)) :
    let repair := (catalog.fixFile .write file batch
      (catalog.fixGroups .write earlier collected).2.2).1
    summary.files[earlier.length]? = some (.ofRepair file batch repair) ∧
      ∀ content, collected.readText file = .ok content → ∀ result, repair = .ok result →
        result.edits = (catalog.fixContent file content.toList batch).edits ∧
          result.finalContent = (catalog.fixContent file content.toList batch).finalContent := by
  intro repair
  let before := catalog.fixGroups .write earlier collected
  have hlength : before.1.length = earlier.length := by
    simpa using congrArg List.length (catalog.map_file_fixGroups .write earlier collected)
  have hfiles : summary.files = before.1 ++ FileOutcome.ofRepair file batch repair
      :: (catalog.fixGroups .write later
        (catalog.fixFile .write file batch before.2.2).2).1 := by
    rw [runRepair_write_files hcollect hrun, hgroups, Catalog.fixGroups_append,
      (Catalog.fixGroups_cons ..).1]
  have hread : before.2.2.readText file = collected.readText file := by
    refine FileTree.readText_congr ?_
    rw [hfile]
    refine Catalog.fixGroups_locate hwell hfile ?_
    rwa [hfiles, ← hlength, List.take_left] at hother
  refine ⟨?_, fun content hcontent result hresult => ?_⟩
  · rw [hfiles, ← hlength, List.getElem?_append_right (Nat.le_refl _), Nat.sub_self]
    rfl
  · rw [(catalog.fixFile_repairStep file batch before.2.2).eq_fixContent (hread.trans hcontent)
      hresult]
    exact ⟨rfl, rfl⟩

/-- A file that a link names is repaired first, and the other one then as it was found. -/
theorem runRepair_plans_collected_link :
    let catalog := Catalog.empty.insertUniversal TypeScript.duplicateComma
    let tree : FileTree :=
      ⟨[], [(["a"], .symlink "c"), (["c"], .ofText "x,,y\n"), (["b"], .ofText "u,,v\n")]⟩
    let all : List Diagnostic := [⟨⟨"b"⟩, 1, 2, "E", ""⟩, ⟨⟨"a"⟩, 1, 2, "E", ""⟩]
    let before := catalog.fixGroups .write [(⟨"a"⟩, [⟨⟨"a"⟩, 1, 2, "E", ""⟩])] tree
    tree.WellFormed ∧ tree.locate true ⟨"a"⟩ = .ok (["c"], .ofText "x,,y\n") ∧
      tree.locate true ⟨"b"⟩ = .ok (["b"], .ofText "u,,v\n") ∧
      (∃ summary, (runRepair Script.source catalog ⟨"E", .write⟩ default default
        ⟨[.ok all, .ok []], 0⟩ tree).outcome = .ok summary) ∧
      ∀ result, (catalog.fixFile .write ⟨"b"⟩ [⟨⟨"b"⟩, 1, 2, "E", ""⟩] before.2.2).1 = .ok result →
        result.finalContent = "u,v\n".toList := by
  intro catalog tree all before
  have hwell : tree.WellFormed := .of_entries rfl (by simp [tree, FileTree.entry?_nil])
  have hlink : tree.locate true ⟨"a"⟩ = .ok (["c"], .ofText "x,,y\n") := by cbv
  have hfile : tree.locate true ⟨"b"⟩ = .ok (["b"], .ofText "u,,v\n") := by cbv
  have hread : tree.readText ⟨"b"⟩ = .ok "u,,v\n" := by cbv
  have hgroups : Diagnostic.targetGroups "E" all
      = [(⟨"a"⟩, [⟨⟨"a"⟩, 1, 2, "E", ""⟩])] ++ (⟨"b"⟩, [⟨⟨"b"⟩, 1, 2, "E", ""⟩]) :: [] := by cbv
  have hcollect : Script.source.collect ⟨[.ok all, .ok []], 0⟩ tree
      = (.ok all, ⟨[.ok []], 1⟩, tree) := rfl
  obtain ⟨summary, hrun⟩ : ∃ summary, (runRepair Script.source catalog ⟨"E", .write⟩ default default
      ⟨[.ok all, .ok []], 0⟩ tree).outcome = .ok summary :=
    ⟨_, congrArg Answer.outcome (runRepair_write hcollect rfl)⟩
  refine ⟨hwell, hlink, hfile, ⟨summary, hrun⟩, fun result hresult => ?_⟩
  obtain ⟨-, hplan⟩ := runRepair_plans_collected hcollect hrun hwell hgroups hfile
    fun outcome houtcome _ entry hentry => by
      -- the first outcome is for the link, which leads to another place
      have hmem := List.mem_map_of_mem (f := (·.file)) houtcome
      rw [List.map_take, runRepair_write_files hcollect hrun, Catalog.map_file_fixGroups,
        hgroups] at hmem
      rw [List.mem_singleton.mp hmem, hlink] at hentry
      simp at hentry
  rw [(hplan _ hread result hresult).2]
  cbv

end Runs

/-! ## A file under two spellings -/

/-- A file beside a directory, so that `s/../a` is a path to the file as `a` is. -/
def FileTree.fileAndDirectory (text : String) : FileTree :=
  ⟨[], [(["a"], .ofText text), (["s"], .directory)]⟩

theorem FileTree.locate_fileAndDirectory (text : String) :
    (fileAndDirectory text).locate true ⟨"a"⟩ = .ok (["a"], .ofText text) ∧
      (fileAndDirectory text).locate true ⟨"s/../a"⟩ = .ok (["a"], .ofText text) :=
  ⟨locate_of_walk ["a"] (by decide +kernel) (by cbv),
    locate_of_walk ["s", "..", "a"] (by decide +kernel) (by cbv)⟩

/-- A path to the file is written to, once it is known where its last step goes from. -/
theorem FileTree.writeAtomically_fileAndDirectory_of_parentOf {path : Path} {text new : String}
    (hfile : (fileAndDirectory text).locate true path = .ok (["a"], .ofText text))
    (habove : (fileAndDirectory text).locate true path.directory = .ok ([], .directory))
    (hparent : ((fileAndDirectory text).put [".tmp0"] (.ofText new)).parentOf path
      = .ok ([], "a"))
    (hslash : (stepsAndSlash path).2 = false) :
    (fileAndDirectory text).writeAtomically path new = (.ok (), fileAndDirectory new) := by
  have hfresh : (fileAndDirectory text).freshPlace [] = [".tmp0"] := by cbv
  have hmode : (fileAndDirectory text).modeOf path = .ok Entry.fileMode := by
    rw [modeOf, hfile]
    rfl
  have hrename : ((fileAndDirectory text).put [".tmp0"] (.ofText new)).rename [".tmp0"] path
      = .ok (fileAndDirectory new) := by
    rw [rename, hparent, hslash]
    cbv
  refine writeAtomically_of_rename hmode habove ?_
  rw [hfresh]
  exact hrename

theorem FileTree.writeAtomically_fileAndDirectory (text new : String) :
    (fileAndDirectory text).writeAtomically ⟨"a"⟩ new = (.ok (), fileAndDirectory new) ∧
      (fileAndDirectory text).writeAtomically ⟨"s/../a"⟩ new
        = (.ok (), fileAndDirectory new) := by
  have hfault : pathFault? ⟨"s/../a"⟩ = none := by decide +kernel
  have hrelative : (Path.mk "s/../a").isAbsolute = false := by decide +kernel
  have hsteps : stepsAndSlash ⟨"s/../a"⟩ = (["s", "..", "a"], false) := by decide +kernel
  have hdirectory : (Path.mk "s/../a").directory = ⟨"s/.."⟩ := by decide +kernel
  refine ⟨writeAtomically_fileAndDirectory_of_parentOf (locate_fileAndDirectory text).1 (by cbv)
    (by cbv) (by cbv),
    writeAtomically_fileAndDirectory_of_parentOf (locate_fileAndDirectory text).2 ?_ ?_ ?_⟩
  · rw [hdirectory]
    cbv
  · rw [parentOf, hfault, hsteps, hrelative]
    cbv
  · rw [hsteps]

/-! ## Braces below a `return` -/

theorem rewrite_braceAfterReturn :
    TypeScript.orphanedBraceAfterReturn.rewrite "return 1\n\x7d".toList
      = .changed "return 1;".toList :=
  Rule.rewrite_eq_changed_iff.mpr ⟨by cbv; simp, by cbv⟩

/-- A brace reported below a `return` goes: the rules tried before do nothing to a brace alone. -/
theorem repairAt?_braceAfterReturn {lines : List (List Char)} {d : Diagnostic}
    (hcode : d.code = "TS1128") (hline : d.line ≠ 0)
    (habove : Catalog.lineAbove? lines d.line = some "return 1".toList)
    (hbrace : lines[d.line - 1]? = some "\x7d".toList) :
    TypeScript.catalog.repairAt? lines d
      = some ⟨"orphaned-brace-after-return", 1, "return 1;".toList⟩ := by
  have hreturn : TypeScript.orphanedBraceAfterReturn.evaluate
      ⟨some "return 1".toList, ['\x7d'], lines[d.line]?, some d⟩ = .changed "return 1;".toList :=
    rewrite_braceAfterReturn
  have hcurrent : lines[d.line - 1]? = some ['\x7d'] := hbrace
  rw [Catalog.repairAt?, if_neg hline, hcurrent, Option.bind_some, habove,
    TypeScript.repair?_closingBrace hcode, Repair.first?, hreturn]
  rfl

/-- Joining it with the line above is the one edit, if it is all that is reported. -/
theorem fixContent_braceAfterReturn {file : Path} {content : List Char} {d : Diagnostic}
    (hcode : d.code = "TS1128") (hline : d.line ≠ 0)
    (habove : Catalog.lineAbove? ((Line.ofText content).map (·.text)) d.line
      = some "return 1".toList)
    (hbrace : ((Line.ofText content).map (·.text))[d.line - 1]? = some "\x7d".toList) :
    let edit : PlannedEdit :=
      ⟨d.line - 1, d.line, ["return 1;".toList], ["orphaned-brace-after-return"]⟩
    TypeScript.catalog.fixContent file content [d]
      = ⟨file, Line.render (Line.applyEdits [edit] (Line.ofText content)), [edit], false⟩ := by
  rw [Catalog.fixContent_eq,
    Catalog.planEdits_singleton (repairAt?_braceAfterReturn hcode hline habove hbrace)]
  rfl

/-- A file repaired under two spellings: at the second one nothing was to be repaired in what the
file held, but its line is counted in what the first repair made of the file, where a brace that was
in place stands there. -/
theorem runRepair_rereads :
    let text := "return 1\n\x7d\n\x7b\nreturn 1\n\x7d\n"
    let tree := FileTree.fileAndDirectory text
    let first : List Diagnostic := [⟨⟨"a"⟩, 2, 1, "TS1128", ""⟩]
    let second : List Diagnostic := [⟨⟨"s/../a"⟩, 4, 1, "TS1128", ""⟩]
    let answer := runRepair Script.source TypeScript.catalog ⟨"TS1128", .write⟩ default default
      ⟨[.ok (first ++ second), .ok []], 0⟩ tree
    tree.readText ⟨"s/../a"⟩ = .ok text ∧
      (TypeScript.catalog.fixContent ⟨"s/../a"⟩ text.toList second).edits = [] ∧
      (∃ summary, answer.outcome = .ok summary ∧
        summary.files.map (fun outcome => (outcome.file, outcome.editsApplied))
          = [(⟨"a"⟩, 1), (⟨"s/../a"⟩, 1)]) ∧
      answer.tree = FileTree.fileAndDirectory "return 1;\n\x7b\nreturn 1;\n" := by
  intro text tree first second answer
  let between := "return 1;\n\x7b\nreturn 1\n\x7d\n"
  let last := "return 1;\n\x7b\nreturn 1;\n"
  have hfirst : TypeScript.catalog.fixContent ⟨"a"⟩ text.toList first = ⟨⟨"a"⟩,
      between.toList, [⟨1, 2, ["return 1;".toList], ["orphaned-brace-after-return"]⟩], false⟩ := by
    rw [fixContent_braceAfterReturn rfl (by decide) (by cbv) (by cbv)]
    cbv
  have hsecond : TypeScript.catalog.fixContent ⟨"s/../a"⟩ between.toList second
      = ⟨⟨"s/../a"⟩, last.toList,
        [⟨3, 4, ["return 1;".toList], ["orphaned-brace-after-return"]⟩], false⟩ := by
    rw [fixContent_braceAfterReturn rfl (by decide) (by cbv) (by cbv)]
    cbv
  have hfirstStep := Catalog.fixFile_write_of_edits
    (FileTree.readText_of_locate (FileTree.locate_fileAndDirectory text).1)
    (by rw [hfirst]; decide)
    ((congrArg _ (by rw [hfirst, String.ofList_toList])).trans
      (FileTree.writeAtomically_fileAndDirectory text between).1)
  have hsecondStep := Catalog.fixFile_write_of_edits
    (FileTree.readText_of_locate (FileTree.locate_fileAndDirectory between).2)
    (by rw [hsecond]; decide)
    ((congrArg _ (by rw [hsecond, String.ofList_toList])).trans
      (FileTree.writeAtomically_fileAndDirectory between last).2)
  have hgroups : Diagnostic.targetGroups "TS1128" (first ++ second)
      = [(⟨"a"⟩, first), (⟨"s/../a"⟩, second)] := by decide +kernel
  have hcollect : Script.source.collect ⟨[.ok (first ++ second), .ok []], 0⟩ tree
      = (.ok (first ++ second), ⟨[.ok []], 1⟩, tree) := rfl
  have hfixed : (TypeScript.catalog.fixGroups .write [(⟨"a"⟩, first), (⟨"s/../a"⟩, second)]
      tree).1.map (fun outcome => (outcome.file, outcome.editsApplied))
        = [(⟨"a"⟩, 1), (⟨"s/../a"⟩, 1)] ∧
      (TypeScript.catalog.fixGroups .write [(⟨"a"⟩, first), (⟨"s/../a"⟩, second)] tree).2.2
        = FileTree.fileAndDirectory last := by
    simp only [Catalog.fixGroups, tree, hfirstStep, hsecondStep, hfirst, hsecond, Except.map]
    exact ⟨rfl, trivial⟩
  rw [← hgroups] at hfixed
  obtain ⟨summary, hrun⟩ : ∃ summary, answer.outcome = .ok summary :=
    ⟨_, congrArg Answer.outcome (runRepair_write hcollect rfl)⟩
  have htree : answer.tree = (TypeScript.catalog.fixGroups .write
      (Diagnostic.targetGroups "TS1128" (first ++ second)) tree).2.2 :=
    congrArg Answer.tree (runRepair_write hcollect rfl)
  refine ⟨FileTree.readText_of_locate (FileTree.locate_fileAndDirectory text).2, by cbv,
    ⟨summary, hrun, ?_⟩, htree.trans hfixed.2⟩
  rw [runRepair_write_files hcollect hrun]
  exact hfixed.1

end SourceRepair
