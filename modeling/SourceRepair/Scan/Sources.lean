import SourceRepair.Config.Basic
import SourceRepair.FileTree.Listing
import SourceRepair.Notice

/-!
# The source files of a project

The files to scan are those below the given roots that have one of the configured extensions,
excluded directories left out. A root that is a file itself is taken whatever its name. A root may
be a link to a directory, but nothing below a root is followed.
-/

namespace SourceRepair

namespace ScanConfig

/-- Whether a directory below a root is searched. -/
def enters (config : ScanConfig) (name : String) : Bool :=
  !config.excludeDirs.contains name

/-- Whether a file below a root is a source file, by the last of its names. -/
def isSource (config : ScanConfig) (names : List String) : Bool :=
  match (names.getLast?).bind Path.nameExtension? with
  | some ext => config.extensions.contains ext
  | none => false

end ScanConfig

/-- The path from a root to a file below it. -/
def Path.below (root : Path) (names : List String) : Path :=
  names.foldl (fun path name => path.join ⟨name⟩) root

namespace FileTree

/-- The source files below a directory that a root leads to. -/
def sourcesBelow (tree : FileTree) (config : ScanConfig) (root : Path) (directory : Place) :
    List Path :=
  ((tree.filesBelow config.enters tree.height directory).filter config.isSource).map root.below

/-- The source files of one root. -/
def sourcesOf (tree : FileTree) (config : ScanConfig) (root : Path) :
    Except IoCause (List Path) :=
  match tree.locate false root with
  | .error cause => .error cause
  | .ok (_, .file _ _) => .ok [root]
  | .ok (_, .device _) => .ok []
  | .ok (place, .directory) => .ok (tree.sourcesBelow config root place)
  | .ok (_, .symlink _) =>
    match tree.locate true root with
    | .error cause => .error cause
    | .ok (place, .directory) => .ok (tree.sourcesBelow config root place)
    | .ok (_, _) => .ok []

/-- The source files of some roots, and the warnings about roots that cannot be searched. -/
def sourceFiles (tree : FileTree) (config : ScanConfig) (roots : List Path) :
    List Path × List Notice :=
  let found := roots.map fun root => (root, tree.sourcesOf config root)
  (found.flatMap fun (_, files) => files.toOption.getD [],
    found.filterMap fun (root, files) =>
      match files with
      | .ok _ => none
      | .error cause => some (.cannotWalk root cause))

end FileTree

end SourceRepair
