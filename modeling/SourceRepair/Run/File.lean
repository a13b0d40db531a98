import SourceRepair.Edit.Content
import SourceRepair.FileTree.Write

/-!
# Repairing one file

A file is read, its content repaired, and the result written back unless the run is a preview. A
file without repairs is not written.
-/

namespace SourceRepair

/-- Repairs the file at a path for the diagnostics in it. -/
def Catalog.fixFile (catalog : Catalog) (mode : WriteMode) (path : Path)
    (batch : List Diagnostic) (tree : FileTree) : Except Failure EditResult × FileTree :=
  match tree.readText path with
  | .error cause => (.error (.io path cause), tree)
  | .ok content =>
    let result := catalog.fixContent path content.toList batch
    if mode = .write ∧ 0 < result.editsApplied then
      match tree.writeAtomically path (String.ofList result.finalContent) with
      | (.error failure, tree) => (.error failure, tree)
      | (.ok (), tree) => (.ok { result with written := true }, tree)
    else (.ok result, tree)

end SourceRepair
