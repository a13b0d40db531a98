import SourceRepair.Proofs.Edit.Planning
import SourceRepair.Proofs.FileTree.Reading
import SourceRepair.Proofs.FileTree.Replacing
import SourceRepair.Run.File

/-!
# Repairing one file, live or not

`repairIn` is what a repair makes of a file, as a function of the tree alone. A preview gives just
that and leaves the tree. A live repair leaves the tree as well if there is nothing to write, and
otherwise puts the repaired content where the path leads (`LiveStep`), provided that the write
succeeds and the path does not name a link.
-/

namespace SourceRepair

namespace Catalog

variable {catalog : Catalog} {tree other : FileTree} {file : Path} {batch : List Diagnostic}

/-- What a repair makes of a file in a tree. -/
def repairIn (catalog : Catalog) (tree : FileTree) (file : Path) (batch : List Diagnostic) :
    Except Failure EditResult :=
  match tree.readText file with
  | .error cause => .error (.io file cause)
  | .ok content => .ok (catalog.fixContent file content.toList batch)

/-- A file that the path leads to in both trees is repaired alike. -/
theorem repairIn_congr (h : other.locate true file = tree.locate true file) :
    catalog.repairIn other file batch = catalog.repairIn tree file batch := by
  unfold repairIn
  rw [FileTree.readText_congr h]

/-- Nothing can be repaired in an empty file. -/
theorem fixContent_nil_editsApplied (catalog : Catalog) (file : Path) (batch : List Diagnostic) :
    (catalog.fixContent file [] batch).editsApplied = 0 := by
  have hedits : catalog.planEdits [] batch = [] := by
    rw [List.eq_nil_iff_forall_not_mem]
    intro edit hedit
    have hwell := wellFormed_of_mem_planEdits hedit
    have hone := hwell.one_le_firstLine
    have hle := hwell.firstLine_le_lastLine
    have hlast : edit.lastLine ≤ 0 := hwell.lastLine_le_length
    omega
  have hresult : (catalog.fixContent file [] batch).edits = [] := hedits
  rw [EditResult.editsApplied, EditResult.rules, hresult]
  rfl

/-- A repair with edits has read a file. -/
theorem locate_of_repairIn {result : EditResult} (h : catalog.repairIn tree file batch = .ok result)
    (hedits : 0 < result.editsApplied) :
    ∃ (place : Place) (content : String) (mode : Mode),
      tree.locate true file = .ok (place, .file content.toUTF8 mode) ∧
        result = catalog.fixContent file content.toList batch := by
  unfold repairIn at h
  split at h
  · exact absurd h (by simp)
  · rename_i content hread
    obtain rfl := Except.ok.inj h
    rcases FileTree.locate_of_readText hread with ⟨rfl, -⟩ | ⟨place, mode, hlocate⟩
    · have hnone := fixContent_nil_editsApplied catalog file batch
      rw [String.toList_empty, hnone] at hedits
      exact absurd hedits (Nat.lt_irrefl 0)
    · exact ⟨place, content, mode, hlocate, rfl⟩

/-- A preview tells what a repair would make of the file, and does nothing. -/
theorem fixFile_preview :
    catalog.fixFile .preview file batch tree = (catalog.repairIn tree file batch, tree) := by
  unfold fixFile repairIn
  cases tree.readText file with
  | error cause => rfl
  | ok content => simp

/-- The write that a live repair of the file needs succeeds. -/
def WriteSucceeds (catalog : Catalog) (tree : FileTree) (file : Path) (batch : List Diagnostic) :
    Prop :=
  ∀ result, catalog.repairIn tree file batch = .ok result → 0 < result.editsApplied →
    (tree.writeAtomically file (String.ofList result.finalContent)).1 = .ok ()

/-- What a live repair of a file may do: nothing, or put the repaired content in its place. -/
inductive LiveStep (catalog : Catalog) (tree : FileTree) (file : Path) (batch : List Diagnostic) :
    Except Failure EditResult × FileTree → Prop where
  | kept (hnone : ∀ result, catalog.repairIn tree file batch = .ok result →
      result.editsApplied = 0) :
      LiveStep catalog tree file batch (catalog.repairIn tree file batch, tree)
  | written {place : Place} {content : String} {mode : Mode} {after : FileTree}
      (hlocate : tree.locate true file = .ok (place, .file content.toUTF8 mode))
      (hedits : 0 < (catalog.fixContent file content.toList batch).editsApplied)
      (hput : tree.PutAt place
        (.file (String.ofList (catalog.fixContent file content.toList batch).finalContent).toUTF8
          mode) after) :
      LiveStep catalog tree file batch
        (.ok { catalog.fixContent file content.toList batch with written := true }, after)

/-- A live repair whose write succeeds, on a path that does not name a link. -/
theorem fixFile_write (hlink : tree.NotLink file) (hwrite : catalog.WriteSucceeds tree file batch) :
    LiveStep catalog tree file batch (catalog.fixFile .write file batch tree) := by
  by_cases hnone : ∀ result, catalog.repairIn tree file batch = .ok result →
      result.editsApplied = 0
  · have hfix : catalog.fixFile .write file batch tree
        = (catalog.repairIn tree file batch, tree) := by
      unfold repairIn at hnone
      unfold fixFile repairIn
      cases hread : tree.readText file with
      | error cause => rfl
      | ok content =>
        rw [hread] at hnone
        have hzero : (catalog.fixContent file content.toList batch).editsApplied = 0 :=
          hnone _ rfl
        simp [hzero]
    rw [hfix]
    exact .kept hnone
  · push Not at hnone
    obtain ⟨result, hrepair, hedits⟩ := hnone
    have hedits : 0 < result.editsApplied := Nat.pos_of_ne_zero hedits
    have hok := hwrite result hrepair hedits
    obtain ⟨place, content, mode, hlocate, rfl⟩ := locate_of_repairIn hrepair hedits
    generalize hafter : tree.writeAtomically file _ = written at hok
    obtain ⟨outcome, after⟩ := written
    obtain rfl : outcome = .ok () := hok
    have hfix : catalog.fixFile .write file batch tree
        = (.ok { catalog.fixContent file content.toList batch with written := true }, after) := by
      unfold fixFile
      rw [FileTree.readText_of_locate hlocate]
      simp only
      rw [if_pos ⟨trivial, hedits⟩, hafter]
    rw [hfix]
    exact .written hlocate hedits (FileTree.putAt_of_writeAtomically hlink hlocate hafter)

end Catalog

end SourceRepair
