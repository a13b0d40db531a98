import SourceRepair.Proofs.FileTree.Listing
import SourceRepair.Proofs.FileTree.Replacing
import SourceRepair.Proofs.Scan.Computed
import SourceRepair.Scan.Files
import SourceRepair.TypeScript.Rules

/-!
# Fixing files finds what scanning them shows

A scan looks at every file in one and the same tree. While files are fixed, each is looked at in the
tree that the files before have left. The two find the same because a fix is written where the
file's path leads, and no other file of the walk is there (`FixRun`, by induction on the files). The
walk over the roots is over before the first file is looked at, and what it finds names files and no
links.
-/

namespace SourceRepair

variable {rules : List Rule} {tree other : FileTree} {path : Path} {paths : List Path}

/-! ## One file -/

/-- The text with its fixes applied, and how many of them were. -/
def fixText (rules : List Rule) (content : String) : List Char × Nat :=
  applyFixes content.toList (scan rules content.toList)

/-- What is told about a text that was scanned, or fixed as well. -/
def FileFindings.ofText (rules : List Rule) (mode : WriteMode) (path : Path) (content : String) :
    FileFindings where
  path := path
  findings := scan rules content.toList
  fixesApplied :=
    if mode = .write ∧ (fixText rules content).1 ≠ content.toList then (fixText rules content).2
    else 0

/-- What is told about a file, from what it holds alone. -/
def scanIn (rules : List Rule) (mode : WriteMode) (tree : FileTree) (path : Path) :
    Except Failure FileFindings :=
  match tree.readText path with
  | .error cause => .error (.io path cause)
  | .ok content => .ok (.ofText rules mode path content)

/-- A file is listed if it has been read and has findings. -/
def FileFindings.listed? : Except Failure FileFindings → Option FileFindings
  | .error _ => none
  | .ok found => if found.findings = [] then none else some found

/-- What is told about a file that the path leads to in both trees. -/
theorem scanIn_congr (h : other.locate true path = tree.locate true path) (mode : WriteMode) :
    scanIn rules mode other path = scanIn rules mode tree path := by
  unfold scanIn
  rw [FileTree.readText_congr h]

/-- A scan tells about the file, and does nothing. -/
theorem scanFile_preview :
    scanFile rules .preview path tree = (scanIn rules .preview tree path, tree) := by
  unfold scanFile scanIn
  cases tree.readText path with
  | error cause => rfl
  | ok content => simp [FileFindings.ofText]

/-- The write that fixing the file needs succeeds. -/
def FixSucceeds (rules : List Rule) (tree : FileTree) (path : Path) : Prop :=
  ∀ content, tree.readText path = .ok content → (fixText rules content).1 ≠ content.toList →
    (tree.writeAtomically path (String.ofList (fixText rules content).1)).1 = .ok ()

/-- What fixing a file may do to the tree: nothing, or put the fixed text in its place. What is told
is the same in both cases. -/
inductive FixStep (rules : List Rule) (tree : FileTree) (path : Path) :
    Except Failure FileFindings × FileTree → Prop where
  | kept (hnone : ∀ content, tree.readText path = .ok content →
      (fixText rules content).1 = content.toList) :
      FixStep rules tree path (scanIn rules .write tree path, tree)
  | written {place : Place} {content : String} {mode : Mode} {after : FileTree}
      (hlocate : tree.locate true path = .ok (place, .file content.toUTF8 mode))
      (hput : tree.PutAt place
        (.file (String.ofList (fixText rules content).1).toUTF8 mode) after) :
      FixStep rules tree path (scanIn rules .write tree path, after)

/-- Fixing a file whose write succeeds, at a path that names a file. -/
theorem scanFile_write (hfile : tree.NamesFile path) (hwrite : FixSucceeds rules tree path) :
    FixStep rules tree path (scanFile rules .write path tree) := by
  by_cases hnone : ∀ content, tree.readText path = .ok content →
      (fixText rules content).1 = content.toList
  · have hfix : scanFile rules .write path tree = (scanIn rules .write tree path, tree) := by
      unfold scanFile scanIn
      cases hread : tree.readText path with
      | error cause => rfl
      | ok content =>
        have hsame := hnone content hread
        simp only [fixText] at hsame
        simp [FileFindings.ofText, fixText, hsame]
    rw [hfix]
    exact .kept hnone
  · push Not at hnone
    obtain ⟨content, hread, hchanged⟩ := hnone
    obtain ⟨place, mode, hlocate⟩ := hfile.locate_of_readText hread
    have hok := hwrite content hread hchanged
    generalize hafter : tree.writeAtomically path _ = written at hok
    obtain ⟨outcome, after⟩ := written
    obtain rfl : outcome = .ok () := hok
    have hfix : scanFile rules .write path tree = (scanIn rules .write tree path, after) := by
      unfold fixText at hchanged hafter
      unfold scanFile scanIn
      rw [hread]
      simp only [FileFindings.ofText, fixText]
      rw [if_pos ⟨trivial, hchanged⟩, if_pos ⟨trivial, hchanged⟩, hafter]
    rw [hfix]
    exact .written hlocate (FileTree.putAt_of_writeAtomically hfile.notLink hlocate hafter)

namespace FixStep

variable {later : Path} {step : Except Failure FileFindings × FileTree}

theorem outcome (h : FixStep rules tree path step) : step.1 = scanIn rules .write tree path := by
  cases h <;> rfl

/-- Fixing a file changes no more than what files hold. -/
theorem sameShape (h : FixStep rules tree path step) : FileTree.SameShape tree step.2 := by
  cases h with
  | kept _ => exact .refl tree
  | written hlocate hput => exact hput.sameShape (FileTree.entry?_of_locate hlocate)

/-- The file then holds its text with the fixes applied, be it by a write or because they change
nothing. -/
theorem readText_eq (h : FixStep rules tree path step) {content : String}
    (hread : tree.readText path = .ok content) :
    step.2.readText path = .ok (String.ofList (fixText rules content).1) := by
  cases h with
  | kept hnone => rw [hnone content hread, String.ofList_toList, hread]
  | @written place content' mode after hlocate hput =>
    obtain rfl : content = content' :=
      Except.ok.inj (hread.symm.trans (FileTree.readText_of_locate hlocate))
    have hled : after.locate true path
        = .ok (place, .file (String.ofList (fixText rules content).1).toUTF8 mode) := by
      rw [FileTree.locate_eq_ok_iff] at hlocate ⊢
      rw [(hput.sameShape (FileTree.resolve_snd hlocate).symm).resolve_eq, hlocate]
      simp only [Except.map, hput.entry?_self]
    exact FileTree.readText_of_locate hled

/-- Nothing is written where no path leads that can be read. -/
theorem kept_elsewhere (h : FixStep rules tree path step) {place : Place}
    (hplace : ∀ content, tree.readText path = .ok content →
      ∀ entry, tree.locate true path ≠ .ok (place, entry)) :
    FileTree.entry? step.2 place = tree.entry? place := by
  cases h with
  | kept _ => rfl
  | written hlocate hput =>
    refine hput.entry?_of_ne ?_
    rintro rfl
    exact hplace _ (FileTree.readText_of_locate hlocate) _ hlocate

/-- A path that names something else is found as before. -/
theorem locate_eq (h : FixStep rules tree path step) (hfile : tree.NamesFile path)
    (hlater : tree.NamesFile later) (hapart : tree.Apart path later) (follow : Bool) :
    step.2.locate follow later = tree.locate follow later :=
  h.sameShape.locate_eq_of_apart hfile.notLink hlater.notLink hapart
    (fun _ hnot => h.kept_elsewhere fun _ _ => hnot) follow

end FixStep

/-! ## All files -/

theorem scanFiles_cons (rules : List Rule) (mode : WriteMode) (path : Path) (paths : List Path)
    (tree : FileTree) :
    let step := scanFile rules mode path tree
    let rest := scanFiles rules mode paths step.2
    (scanFiles rules mode (path :: paths) tree).1
        = (FileFindings.listed? step.1).toList ++ rest.1 ∧
      (scanFiles rules mode (path :: paths) tree).2.2 = rest.2.2 := by
  cases hstep : scanFile rules mode path tree with
  | mk outcome after =>
    cases outcome with
    | error failure =>
      simp only [scanFiles, hstep, FileFindings.listed?]
      exact ⟨rfl, trivial⟩
    | ok found =>
      simp only [scanFiles, hstep, FileFindings.listed?]
      split <;> exact ⟨rfl, trivial⟩

/-- A scan looks at each file in the tree as it is, and leaves it so. -/
theorem scanFiles_preview (rules : List Rule) (paths : List Path) (tree : FileTree) :
    (scanFiles rules .preview paths tree).1
        = paths.filterMap (fun path => FileFindings.listed? (scanIn rules .preview tree path)) ∧
      (scanFiles rules .preview paths tree).2.2 = tree := by
  induction paths with
  | nil => exact ⟨rfl, rfl⟩
  | cons path more ih =>
    obtain ⟨hresults, htree⟩ := scanFiles_cons rules .preview path more tree
    rw [scanFile_preview] at hresults htree
    rw [hresults, htree, ih.1, ih.2, List.filterMap_cons]
    cases FileFindings.listed? (scanIn rules .preview tree path) <;> exact ⟨rfl, rfl⟩

/-- Every write that fixing the files needs succeeds, in the tree at that time. -/
def FixesSucceed (rules : List Rule) : List Path → FileTree → Prop
  | [], _ => True
  | path :: paths, tree =>
    FixSucceeds rules tree path ∧ FixesSucceed rules paths (scanFile rules .write path tree).2

/-- What fixing files comes to, told from the tree at the start alone. -/
structure FixRun (rules : List Rule) (tree : FileTree) (paths : List Path)
    (run : List FileFindings × List Notice × FileTree) : Prop where
  /-- Each file is listed as if it were the only one. -/
  results : run.1
    = paths.filterMap fun path => FileFindings.listed? (scanIn rules .write tree path)
  shape : FileTree.SameShape tree run.2.2
  /-- Each file that can be read holds its text with the fixes applied. -/
  fixed : ∀ path ∈ paths, ∀ content, tree.readText path = .ok content →
    run.2.2.readText path = .ok (String.ofList (fixText rules content).1)
  /-- Nothing else has changed. -/
  kept : ∀ place, (∀ path ∈ paths, ∀ content, tree.readText path = .ok content →
    ∀ entry, tree.locate true path ≠ .ok (place, entry)) →
      FileTree.entry? run.2.2 place = tree.entry? place

/-- Fixing files that are apart. The induction is on the files; what carries it is that those still
to come are found as in the tree at the start. -/
theorem scanFiles_write (hfiles : ∀ path ∈ paths, tree.NamesFile path)
    (hapart : paths.Pairwise tree.Apart) (hwrites : FixesSucceed rules paths tree) :
    FixRun rules tree paths (scanFiles rules .write paths tree) := by
  induction paths generalizing tree with
  | nil =>
    exact {
      results := rfl
      shape := .refl tree
      fixed := fun path hpath => absurd hpath List.not_mem_nil
      kept := fun place _ => rfl }
  | cons path more ih =>
    obtain ⟨hwrite, hwrites⟩ := hwrites
    obtain ⟨hfirst, hmore⟩ := List.pairwise_cons.mp hapart
    obtain ⟨hfile, hothers⟩ := List.forall_mem_cons.mp hfiles
    have hstep := scanFile_write hfile hwrite
    obtain ⟨hresults, htree⟩ := scanFiles_cons rules .write path more tree
    generalize scanFile rules .write path tree = step at *
    have hfound : ∀ later ∈ more, ∀ follow,
        step.2.locate follow later = tree.locate follow later := fun later hmem =>
      hstep.locate_eq hfile (hothers later hmem) (hfirst later hmem)
    have hread : ∀ later ∈ more, step.2.readText later = tree.readText later := fun later hmem =>
      FileTree.readText_congr (hfound later hmem true)
    have hrun : FixRun rules step.2 more (scanFiles rules .write more step.2) :=
      ih (fun later hmem => (hothers later hmem).congr (hfound later hmem false))
        (hmore.imp_of_mem fun hp hq hne => hne.congr (hfound _ hp false) (hfound _ hq false))
        hwrites
    exact {
      results := by
        have hlater : ∀ later ∈ more, FileFindings.listed? (scanIn rules .write step.2 later)
            = FileFindings.listed? (scanIn rules .write tree later) := fun later hmem => by
          rw [scanIn_congr (hfound later hmem true)]
        rw [hresults, hrun.results, hstep.outcome, List.filterMap_congr hlater,
          List.filterMap_cons]
        cases FileFindings.listed? (scanIn rules .write tree path) <;> rfl
      shape := by
        rw [htree]
        exact hstep.sameShape.trans hrun.shape
      fixed := by
        intro p hp content hcontent
        rw [htree]
        rcases List.mem_cons.mp hp with rfl | hp
        · -- no later file is at the place that has just been written
          rw [← hstep.readText_eq hcontent]
          refine FileTree.readText_congr (hrun.shape.locate_eq fun place entry hled => ?_)
          refine hrun.kept place fun later hmem _ _ entry' hlater => ?_
          obtain ⟨old, hled⟩ := hstep.sameShape.exists_locate hled
          rw [hfound later hmem, FileTree.locate_true (hothers later hmem).notLink] at hlater
          rw [FileTree.locate_true hfile.notLink] at hled
          exact hfirst later hmem _ _ _ hled hlater
        · rw [← hread p hp] at hcontent
          exact hrun.fixed p hp content hcontent
      kept := by
        intro place hplace
        obtain ⟨hhead, htail⟩ := List.forall_mem_cons.mp hplace
        rw [htree, hrun.kept place, hstep.kept_elsewhere hhead]
        intro later hmem content hcontent entry
        rw [hread later hmem] at hcontent
        rw [hfound later hmem]
        exact htail later hmem content hcontent entry }

/-! ## Walks over roots -/

section Roots

variable {mode : WriteMode} {config : ScanConfig} {roots : List Path} {found : FileFindings}

/-- What is listed has been read, and is told from what was read. -/
theorem exists_readText_of_mem_listed (h : found ∈ paths.filterMap fun path =>
      FileFindings.listed? (scanIn rules mode tree path)) :
    ∃ content, tree.readText found.path = .ok content ∧
      found = .ofText rules mode found.path content := by
  obtain ⟨path, -, hlisted⟩ := List.mem_filterMap.mp h
  unfold scanIn at hlisted
  cases hread : tree.readText path with
  | error cause =>
    rw [hread] at hlisted
    exact absurd hlisted (by simp [FileFindings.listed?])
  | ok content =>
    rw [hread] at hlisted
    simp only [FileFindings.listed?] at hlisted
    split at hlisted
    · exact absurd hlisted (by simp)
    · obtain rfl := Option.some.inj hlisted
      exact ⟨content, hread, rfl⟩

/-- A file that cannot be read is not listed. -/
theorem not_mem_listed_of_unread {cause : IoCause} (h : tree.readText path = .error cause) :
    path ∉ (paths.filterMap fun path =>
      FileFindings.listed? (scanIn rules mode tree path)).map (·.path) := by
  intro hmem
  obtain ⟨found, hfound, rfl⟩ := List.mem_map.mp hmem
  obtain ⟨content, hread, -⟩ := exists_readText_of_mem_listed hfound
  rw [h] at hread
  exact absurd hread (by simp)

/-- A scan and a fix list the same files with the same findings. -/
theorem map_listed_write_eq_preview (rules : List Rule) (tree : FileTree) (path : Path) :
    (FileFindings.listed? (scanIn rules .write tree path)).map
        (fun found => (found.path, found.findings))
      = (FileFindings.listed? (scanIn rules .preview tree path)).map
        (fun found => (found.path, found.findings)) := by
  unfold scanIn
  cases tree.readText path with
  | error cause => rfl
  | ok content =>
    simp only [FileFindings.listed?]
    by_cases hnone : scan rules content.toList = []
    · have hlisted (mode) : (FileFindings.ofText rules mode path content).findings = [] := hnone
      rw [if_pos (hlisted .write), if_pos (hlisted .preview)]
    · have hlisted (mode) : (FileFindings.ofText rules mode path content).findings ≠ [] := hnone
      rw [if_neg (hlisted .write), if_neg (hlisted .preview)]
      rfl

/-- If no file is reached twice and all writes succeed, fixing the files below some roots lists what
a scan lists, and puts into each file that can be read its text with the fixes applied. -/
theorem scanRoots_write_eq_preview (rules : List Rule) (hwell : tree.WellFormed)
    (honce : (tree.sourceFiles config roots).1.Pairwise tree.Apart)
    (hwrites : FixesSucceed rules (tree.sourceFiles config roots).1 tree) :
    let visited := (tree.sourceFiles config roots).1
    let shown := scanRoots rules .preview config roots tree
    let fixed := scanRoots rules .write config roots tree
    shown.2.2 = tree ∧
      (∀ found ∈ shown.1, found.fixesApplied = 0) ∧
      fixed.1.map (fun found => (found.path, found.findings))
        = shown.1.map (fun found => (found.path, found.findings)) ∧
      shown.1 = visited.filterMap
        (fun path => FileFindings.listed? (scanIn rules .preview tree path)) ∧
      (∀ found ∈ fixed.1, ∃ content, tree.readText found.path = .ok content ∧
        found.findings = scan rules content.toList ∧
        found.fixesApplied
          = if (applyFixes content.toList found.findings).1 = content.toList then 0
            else (applyFixes content.toList found.findings).2) ∧
      (∀ path ∈ visited, ∀ content, tree.readText path = .ok content →
        fixed.2.2.readText path
          = .ok (String.ofList (applyFixes content.toList (scan rules content.toList)).1)) ∧
      (∀ path ∈ visited, ∀ cause, tree.readText path = .error cause →
        path ∉ shown.1.map (·.path) ∧ path ∉ fixed.1.map (·.path)) ∧
      ∀ place, (∀ path ∈ visited, ∀ content, tree.readText path = .ok content →
        ∀ entry, tree.locate true path ≠ .ok (place, entry)) →
          FileTree.entry? fixed.2.2 place = tree.entry? place := by
  intro visited shown fixed
  obtain ⟨hshown, htree⟩ := scanFiles_preview rules visited tree
  have hrun : FixRun rules tree visited (scanFiles rules .write visited tree) :=
    scanFiles_write (fun path hpath => FileTree.namesFile_of_mem_sourceFiles hwell hpath)
      honce hwrites
  have hfixed : fixed.1 = visited.filterMap
      (fun path => FileFindings.listed? (scanIn rules .write tree path)) := hrun.results
  refine ⟨htree, fun found hfound => ?_, ?_, hshown, fun found hfound => ?_, hrun.fixed,
    fun path _ cause hcause => ⟨?_, ?_⟩, hrun.kept⟩
  · rw [show shown.1 = _ from hshown] at hfound
    obtain ⟨content, -, hfound⟩ := exists_readText_of_mem_listed hfound
    rw [hfound]
    rfl
  · rw [hfixed, show shown.1 = _ from hshown, List.map_filterMap, List.map_filterMap]
    exact List.filterMap_congr fun path _ => map_listed_write_eq_preview rules tree path
  · rw [hfixed] at hfound
    obtain ⟨content, hread, hfound⟩ := exists_readText_of_mem_listed hfound
    refine ⟨content, hread, by rw [hfound]; rfl, ?_⟩
    rw [hfound]
    simp [FileFindings.ofText, fixText]
  · rw [show shown.1 = _ from hshown]
    exact not_mem_listed_of_unread hcause
  · rw [hfixed]
    exact not_mem_listed_of_unread hcause

/-- A root that is a file loses a comma. A file below the other root is no text, and one beside the
roots keeps its own commas. -/
theorem scanRoots_write_eq_preview_notText :
    let rules := [TypeScript.duplicateComma]
    let config : ScanConfig := { extensions := ["t"] }
    let roots : List Path := [⟨"x"⟩, ⟨"d"⟩]
    let tree : FileTree := ⟨[], [(["d"], .directory),
      (["d", "z.t"], .file ⟨#[0xFF]⟩ Entry.fileMode), (["x"], .ofText "x,,y\n"),
      (["y"], .ofText "u,,v\n")]⟩
    let shown := scanRoots rules .preview config roots tree
    let fixed := scanRoots rules .write config roots tree
    shown.2.2 = tree ∧
      fixed.1.map (fun found => (found.path, found.findings))
        = shown.1.map (fun found => (found.path, found.findings)) ∧
      ⟨"d/z.t"⟩ ∉ fixed.1.map (·.path) ∧
      fixed.2.2.readText ⟨"x"⟩ = .ok "x,y\n" ∧
      FileTree.entry? fixed.2.2 ["y"] = some (.ofText "u,,v\n") := by
  intro rules config roots tree shown fixed
  have hwell : tree.WellFormed := .of_entries rfl (by simp [tree, FileTree.entry?])
  have hvisited : (tree.sourceFiles config roots).1 = [⟨"x"⟩, ⟨"d/z.t"⟩] := by cbv
  have hx : ∀ follow, tree.locate follow ⟨"x"⟩ = .ok (["x"], .ofText "x,,y\n") := fun follow =>
    FileTree.locate_of_walk ["x"] (by decide +kernel) (by cbv)
  have hz : ∀ follow, tree.locate follow ⟨"d/z.t"⟩
      = .ok (["d", "z.t"], .file ⟨#[0xFF]⟩ Entry.fileMode) := fun follow =>
    FileTree.locate_of_walk ["d", "z.t"] (by decide +kernel) (by cbv)
  have hread : tree.readText ⟨"x"⟩ = .ok "x,,y\n" := FileTree.readText_of_locate (hx true)
  have hunread : tree.readText ⟨"d/z.t"⟩ = .error .notText := by
    rw [FileTree.readText, FileTree.readBytes, hz]
    decide +kernel
  have hwritten : ∀ text, (tree.writeAtomically ⟨"x"⟩ text).1 = .ok () := by
    intro text
    cbv
  have hapart : tree.Apart ⟨"x"⟩ ⟨"d/z.t"⟩ := by
    intro place entry entry' hentry hentry'
    rw [hx] at hentry
    rw [hz] at hentry'
    obtain ⟨rfl, -⟩ := Prod.mk.inj (Except.ok.inj hentry)
    exact absurd (Prod.mk.inj (Except.ok.inj hentry')).1 (by simp)
  have honce : (tree.sourceFiles config roots).1.Pairwise tree.Apart := by
    rw [hvisited]
    exact List.pairwise_pair.mpr hapart
  have hnames : ∀ path ∈ (tree.sourceFiles config roots).1, tree.NamesFile path := fun path hpath =>
    FileTree.namesFile_of_mem_sourceFiles hwell hpath
  rw [hvisited] at hnames
  have hwrites : FixesSucceed rules (tree.sourceFiles config roots).1 tree := by
    have hfirst : FixSucceeds rules tree ⟨"x"⟩ := fun _ _ _ => hwritten _
    rw [hvisited]
    refine ⟨hfirst, fun content hcontent => ?_, trivial⟩
    -- the second file is read as in the tree at the start
    have hstep := scanFile_write (hnames _ (by simp)) hfirst
    rw [FileTree.readText_congr (hstep.locate_eq (hnames _ (by simp)) (hnames _ (by simp)) hapart
      true), hunread] at hcontent
    exact absurd hcontent (by simp)
  obtain ⟨htree, -, hsame, -, -, hfixed, hleft, hkept⟩ :=
    scanRoots_write_eq_preview rules hwell honce hwrites
  rw [hvisited] at hfixed hleft hkept
  refine ⟨htree, hsame, (hleft ⟨"d/z.t"⟩ (by simp) _ hunread).2, ?_, ?_⟩
  · have hfixes : (computedFindings rules "x,,y\n".toList).map (·.fix)
        = [some ⟨1, 3, ",".toList⟩] := by decide +kernel
    obtain ⟨finding, hfindings, hfix⟩ := List.map_eq_singleton_iff.mp hfixes
    rw [hfixed ⟨"x"⟩ (by simp) _ hread, scan_eq_singleton hfindings, applyFixes_singleton hfix]
    decide +kernel
  · refine hkept ["y"] fun path hpath content _ entry hentry => ?_
    rcases List.mem_pair.mp hpath with rfl | rfl
    · rw [hx] at hentry
      exact absurd (Prod.mk.inj (Except.ok.inj hentry)).1 (by simp)
    · rw [hz] at hentry
      exact absurd (Prod.mk.inj (Except.ok.inj hentry)).1 (by simp)

end Roots

end SourceRepair
