import SourceRepair.FileTree.Basic

/-!
# Listing directories

What stands in a directory is listed in the order of the names, and the files below it depth first.
Symbolic links and devices are no files, and links are not followed. A directory is entered only if
its name is welcome.
-/

namespace SourceRepair.FileTree

/-- The last name of a place right below a directory. -/
def childName? (directory place : Place) : Option String :=
  if place.dropLast = directory then place.getLast? else none

/-- The names in a directory, in increasing order. -/
def children (tree : FileTree) (directory : Place) : List String :=
  ((tree.entries.filterMap fun (place, _) => childName? directory place).eraseDups).mergeSort
    fun a b => a ≤ b

/-- How deep the tree is. -/
def height (tree : FileTree) : Nat :=
  (tree.entries.map fun (place, _) => place.length).foldl max 0

/-- The files below a directory, each given by the names on the way from it; `depth` bounds the
number of names. -/
def filesBelow (tree : FileTree) (enter : String → Bool) : Nat → Place → List (List String)
  | 0, _ => []
  | depth + 1, directory =>
    (tree.children directory).flatMap fun name =>
      match tree.entry? (directory ++ [name]) with
      | some (.file _ _) => [[name]]
      | some .directory =>
        if enter name then
          (filesBelow tree enter depth (directory ++ [name])).map (name :: ·)
        else []
      | some (.symlink _) => []
      | some (.device _) => []
      | none => []

end SourceRepair.FileTree
