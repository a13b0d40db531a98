import SourceRepair.Proofs.FileTree.AllOrNothing
import SourceRepair.Proofs.Run.Collected

/-!
# Repairs at links

A file is read through the links that lead to it, and so are its access rights, but a repair is
written over what the path names. If that is the file, everyone who comes to the file by links reads
the repaired text. If it is a link, a file with the repaired text takes the place of the link, and
the file behind it keeps the text that was to be repaired (`fixFile_written`). Who comes to that
file in another way reads this text (`fixFile_not_through_link`).
-/

namespace SourceRepair

namespace Catalog

variable {catalog : Catalog} {tree after : FileTree} {file : Path} {batch : List Diagnostic}
  {result : EditResult}

/-- A repair that is written has read a file. -/
theorem exists_writeAtomically_of_written
    (h : catalog.fixFile .write file batch tree = (.ok result, after))
    (hwritten : result.written = true) :
    (∃ led content mode, tree.locate true file = .ok (led, .file content mode)) ∧
      tree.writeAtomically file (String.ofList result.finalContent) = (.ok (), after) := by
  cases hread : tree.readText file with
  | error cause =>
    rw [fixFile, hread] at h
    exact absurd (Prod.mk.inj h).1 (by simp)
  | ok content =>
    by_cases hedits : 0 < (catalog.fixContent file content.toList batch).editsApplied
    · cases hwrite : tree.writeAtomically file
        (String.ofList (catalog.fixContent file content.toList batch).finalContent) with
      | mk outcome after' =>
        rw [fixFile_write_of_edits hread hedits hwrite] at h
        obtain ⟨houtcome, rfl⟩ := Prod.mk.inj h
        cases outcome with
        | error failure => exact absurd houtcome (by simp [Except.map])
        | ok done =>
          obtain rfl := Except.ok.inj houtcome
          refine ⟨?_, hwrite⟩
          rcases FileTree.locate_of_readText hread with ⟨rfl, -⟩ | ⟨led, mode, hled⟩
          · -- there is nothing to repair in an empty file
            rw [String.toList_empty, fixContent_nil_editsApplied] at hedits
            exact absurd hedits (Nat.lt_irrefl 0)
          · exact ⟨led, _, mode, hled⟩
    · rw [fixFile, hread] at h
      simp only at h
      rw [if_neg fun h => hedits h.2] at h
      obtain rfl := Except.ok.inj (Prod.mk.inj h).1
      exact absurd hwritten (by simp [fixContent])

/-- A repair that is written goes where the path names something, with the access rights of the file
that the path leads to, and the path leads to what is written. If the path names the file, so does
every other path that led to the file. If it names a link, the link is gone and the file is as it
was: a path that names the file leads there still, and any other one leads there or, if it comes to
the link, to what is written. -/
theorem fixFile_written (hwell : tree.WellFormed)
    (h : catalog.fixFile .write file batch tree = (.ok result, after))
    (hwritten : result.written = true) :
    ∃ led named content mode, tree.locate true file = .ok (led, .file content mode) ∧
      after.locate true file
        = .ok (named, .file (String.ofList result.finalContent).toUTF8 mode) ∧
      (∀ place, place ≠ named → after.entry? place = tree.entry? place) ∧
      (named = led ∧
          (∀ other entry, tree.locate true other = .ok (led, entry) →
            after.readText other = .ok (String.ofList result.finalContent)) ∨
        named ≠ led ∧ (∃ target, tree.locate false file = .ok (named, .symlink target)) ∧
          (∀ other entry, tree.locate false other = .ok (led, entry) →
            after.locate true other = .ok (led, .file content mode)) ∧
          ∀ other entry, tree.locate true other = .ok (led, entry) →
            after.locate true other = .ok (led, .file content mode) ∨
            after.readText other = .ok (String.ofList result.finalContent)) := by
  obtain ⟨⟨led, content, mode, hled⟩, hwrite⟩ := exists_writeAtomically_of_written h hwritten
  obtain ⟨mode', named, old, hmode, hnamed, hput⟩ := FileTree.writeAtomically_eq_ok hwrite
  obtain rfl : mode = mode' := by
    rw [FileTree.modeOf, hled] at hmode
    exact Except.ok.inj hmode
  have hfile := FileTree.entry?_of_locate hled
  have hlocate := hput.locate_named hwell hnamed hled (by simp)
  have hleads : after.locate true file
      = .ok (named, .file (String.ofList result.finalContent).toUTF8 mode) :=
    FileTree.locate_true_of_ne_symlink (by simp) hlocate
  refine ⟨led, named, content, mode, hled, hleads, fun place hne => ?_, ?_⟩
  · exact hput.entry?_of_ne hne
  by_cases hlink : ∃ target, old = .symlink target
  · right
    obtain ⟨target, rfl⟩ := hlink
    have hne : named ≠ led := by
      rintro rfl
      have hlink := FileTree.entry?_of_locate hnamed
      exact absurd (Option.some.inj (hlink.symm.trans hfile)) (by simp)
    refine ⟨hne, ⟨target, hnamed⟩, fun other entry hother => ?_, fun other entry hother => ?_⟩
    · obtain rfl := Option.some.inj ((FileTree.entry?_of_locate hother).symm.trans hfile)
      rcases hput.locate_cases_of_link hwell hnamed hled (by simp) hother with h | ⟨-, h⟩
      · exact FileTree.locate_true_of_ne_symlink (by simp) h
      · exact absurd h.symm hne
    · obtain rfl := Option.some.inj ((FileTree.entry?_of_locate hother).symm.trans hfile)
      rcases hput.locate_cases_of_link hwell hnamed hled (by simp) hother with h | ⟨h, -⟩
      · exact .inl h
      · exact .inr (FileTree.readText_of_locate h)
  · left
    have hnamed' :=
      FileTree.locate_true_of_ne_symlink (fun target heq => hlink ⟨target, heq⟩) hnamed
    obtain ⟨rfl, -⟩ := Prod.mk.inj (Except.ok.inj (hnamed'.symm.trans hled))
    refine ⟨rfl, fun other entry hother => ?_⟩
    obtain rfl := Option.some.inj ((FileTree.entry?_of_locate hother).symm.trans hfile)
    exact FileTree.readText_of_locate (hput.locate_eq_of_leaf (by simp) (by simp) hother)

end Catalog

/-! ## A file and a link to it -/

/-- A file beside a link to it. -/
def FileTree.fileAndLink (text : String) : FileTree :=
  ⟨[], [(["a"], .ofText text), (["l"], .symlink "a")]⟩

theorem FileTree.fileAndLink_wellFormed (text : String) : (fileAndLink text).WellFormed := by
  refine .of_entries rfl fun stood hstood => ?_
  simp only [fileAndLink, List.mem_cons, List.not_mem_nil, or_false] at hstood
  rcases hstood with rfl | rfl
  all_goals
    refine ⟨rfl, fun name hname => ?_⟩
    obtain rfl := List.mem_singleton.mp hname
    decide

theorem FileTree.locate_fileAndLink (text : String) :
    (fileAndLink text).locate true ⟨"a"⟩ = .ok (["a"], .ofText text) ∧
      (fileAndLink text).locate true ⟨"l"⟩ = .ok (["a"], .ofText text) :=
  ⟨locate_of_walk ["a"] (by decide +kernel) (by cbv),
    locate_of_walk ["l"] (by decide +kernel) (by cbv)⟩

theorem FileTree.writeAtomically_fileAndLink (text new : String) :
    (fileAndLink text).writeAtomically ⟨"a"⟩ new = (.ok (), fileAndLink new) ∧
      (fileAndLink text).writeAtomically ⟨"l"⟩ new
        = (.ok (), ⟨[], [(["a"], .ofText text), (["l"], .ofText new)]⟩) := by
  have hmode : ∀ {path}, (fileAndLink text).locate true path = .ok (["a"], .ofText text) →
      (fileAndLink text).modeOf path = .ok Entry.fileMode := by
    intro path h
    rw [modeOf, h]
    rfl
  have hfresh : (fileAndLink text).freshPlace [] = [".tmp0"] := by cbv
  have hfile : (fileAndLink text).locate true (Path.mk "a").directory = .ok ([], .directory) := by
    cbv
  have hlink : (fileAndLink text).locate true (Path.mk "l").directory = .ok ([], .directory) := by
    cbv
  refine ⟨writeAtomically_of_rename (hmode (locate_fileAndLink text).1) hfile ?_,
    writeAtomically_of_rename (hmode (locate_fileAndLink text).2) hlink ?_⟩
  · rw [hfresh, show Entry.file new.toUTF8 Entry.fileMode = .ofText new from rfl]
    cbv
  · rw [hfresh, show Entry.file new.toUTF8 Entry.fileMode = .ofText new from rfl]
    cbv

section Braces

variable (file : Path)

/-- A brace that is reported below a `return`. -/
def braceReported : Diagnostic :=
  ⟨file, 2, 1, "TS1128", "Declaration or statement expected."⟩

theorem fixContent_braceReported :
    TypeScript.catalog.fixContent file "return 1\n\x7d\n".toList [braceReported file]
      = ⟨file, "return 1;\n".toList,
        [⟨1, 2, ["return 1;".toList], ["orphaned-brace-after-return"]⟩], false⟩ := by
  rw [fixContent_braceAfterReturn rfl (show 2 ≠ 0 by decide) (by cbv) (by cbv)]
  cbv

end Braces

namespace Catalog

/-- A repair of the file is read at the link. -/
theorem fixFile_written_fileAndLink :
    let text := "return 1\n\x7d\n"
    let tree := FileTree.fileAndLink text
    ∃ result after, tree.WellFormed ∧
      TypeScript.catalog.fixFile .write ⟨"a"⟩ [braceReported ⟨"a"⟩] tree = (.ok result, after) ∧
      result.written = true ∧ after.readText ⟨"l"⟩ = .ok "return 1;\n" := by
  intro text tree
  obtain ⟨hfile, hlink⟩ := FileTree.locate_fileAndLink text
  have hwell : tree.WellFormed := FileTree.fileAndLink_wellFormed text
  have hstep := fixFile_write_of_edits (FileTree.readText_of_locate hfile)
    (by rw [fixContent_braceReported]; decide)
    ((congrArg _ (by rw [fixContent_braceReported, String.ofList_toList])).trans
      (FileTree.writeAtomically_fileAndLink text "return 1;\n").1)
  rw [fixContent_braceReported] at hstep
  refine ⟨_, _, hwell, hstep, rfl, ?_⟩
  obtain ⟨led, named, content, mode, hled, -, -, h⟩ := fixFile_written hwell hstep rfl
  obtain ⟨rfl, -⟩ : ["a"] = led ∧ _ := Prod.mk.inj (Except.ok.inj (hfile.symm.trans hled))
  rcases h with ⟨-, hother⟩ | ⟨-, ⟨target, hnamed⟩, -⟩
  · have hread := hother _ _ hlink
    rwa [String.ofList_toList] at hread
  · -- the path of the file names no link
    have hfile' : tree.locate false ⟨"a"⟩ = .ok (["a"], .ofText text) :=
      FileTree.locate_of_walk ["a"] (by decide +kernel) (by cbv)
    exact absurd (Prod.mk.inj (Except.ok.inj (hfile'.symm.trans hnamed))).2 (by simp [Entry.ofText])

/-- A repair at the link leaves the file as it was, and the link is gone. -/
theorem fixFile_not_through_link :
    let text := "return 1\n\x7d\n"
    let tree := FileTree.fileAndLink text
    ∃ result after, tree.locate true ⟨"l"⟩ = .ok (["a"], .ofText text) ∧
      TypeScript.catalog.fixFile .write ⟨"l"⟩ [braceReported ⟨"l"⟩] tree = (.ok result, after) ∧
      result.written = true ∧ String.ofList result.finalContent = "return 1;\n" ∧
      tree.entry? ["l"] = some (.symlink "a") ∧ after.entry? ["l"] = some (.ofText "return 1;\n") ∧
      after.entry? ["a"] = some (.ofText text) ∧ after.readText ⟨"a"⟩ = .ok text := by
  intro text tree
  obtain ⟨-, hlink⟩ := FileTree.locate_fileAndLink text
  have hstep := fixFile_write_of_edits (FileTree.readText_of_locate hlink)
    (by rw [fixContent_braceReported]; decide)
    ((congrArg _ (by rw [fixContent_braceReported, String.ofList_toList])).trans
      (FileTree.writeAtomically_fileAndLink text "return 1;\n").2)
  rw [fixContent_braceReported] at hstep
  refine ⟨_, _, hlink, hstep, rfl, String.ofList_toList, rfl, rfl, rfl, ?_⟩
  exact FileTree.readText_of_locate (FileTree.locate_of_walk ["a"] (by decide +kernel) (by cbv))

end Catalog

end SourceRepair
