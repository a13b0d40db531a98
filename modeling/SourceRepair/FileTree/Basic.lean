import SourceRepair.Failure

/-!
# File trees

A tree of files, directories, symbolic links and devices, each at a place below the root. Paths are
looked up from the tree's working directory; symbolic links on the way are followed, at most forty
of them, and `..` leads to the directory above the one reached so far. A path that is empty, holds a
NUL or is too long leads nowhere in any tree.
-/

namespace SourceRepair

/-- The bits of a file's access rights. -/
abbrev Mode : Type := Nat

/-- Devices to write to; nothing is read from them. -/
inductive Device where
  /-- Takes all that is written. -/
  | null
  /-- Has no room for anything. -/
  | full
  deriving DecidableEq, Repr, Inhabited

/-- What stands at a place of a tree. -/
inductive Entry where
  | file (content : ByteArray) (mode : Mode)
  | symlink (target : String)
  | device (device : Device)
  | directory

namespace Entry

/-- The mode of new files. -/
def fileMode : Mode := 0o644

/-- The mode of devices. -/
def deviceMode : Mode := 0o666

/-- The mode of directories. -/
def directoryMode : Mode := 0o755

/-- A new file that holds a text. -/
def ofText (text : String) : Entry :=
  .file text.toUTF8 fileMode

end Entry

/-- A place in a tree: the names on the way from the root. -/
abbrev Place : Type := List String

/-- A tree, given by what stands at each place, and the working directory. The root itself is always
a directory. -/
structure FileTree where
  home : Place
  entries : List (Place × Entry)

namespace FileTree

/-- What stands at a place. -/
def entry? (tree : FileTree) (place : Place) : Option Entry :=
  if place = [] then some .directory else tree.entries.lookup place

/-- Puts an entry at a place, instead of what stands there. -/
def put (tree : FileTree) (place : Place) (entry : Entry) : FileTree :=
  { tree with entries :=
      if tree.entries.any (·.1 == place) then
        tree.entries.map fun old => if old.1 == place then (place, entry) else old
      else tree.entries ++ [(place, entry)] }

/-- Makes sure that the directories above a place exist. -/
def putParents (tree : FileTree) (place : Place) : FileTree :=
  (List.range place.length).foldl (fun tree n =>
    let parent := place.take n
    if (tree.entry? parent).isSome then tree else tree.put parent .directory) tree

/-- The places of the devices. -/
def devices : List (Place × Device) :=
  [(["dev", "null"], .null), (["dev", "full"], .full)]

/-- The tree with nothing but the devices and its working directory. -/
def empty (home : Place) : FileTree :=
  let bare : FileTree := ⟨home, []⟩
  let tree := devices.foldl (fun (tree : FileTree) (place, device) =>
    (tree.putParents place).put place (.device device)) bare
  (tree.putParents home).put home .directory

/-- The names in a path, with those that stand for no step left out. -/
def steps (path : String) : List String :=
  (Text.pieces '/' path.toList).map String.ofList

/-- Adds an entry at a path below the working directory. -/
def add (tree : FileTree) (path : String) (entry : Entry) : FileTree :=
  let place := tree.home ++ (steps path).filter (· ≠ "")
  if place = tree.home then tree else (tree.putParents place).put place entry

/-! ## Looking up paths -/

/-- The number of symbolic links that a lookup follows. -/
def linkLimit : Nat := 40

/-- The number of bytes that a name may have. -/
def nameLimit : Nat := 255

/-- The number of bytes that a path may have. -/
def pathLimit : Nat := 4095

/-- Why a path leads nowhere in any tree. -/
def pathFault? (path : Path) : Option IoCause :=
  if path.spelling.toList.contains '\x00' then some .nulInPath
  else if path.spelling = "" then some .noEntry
  else if pathLimit < path.spelling.utf8ByteSize then some .nameTooLong
  else none

/-- Follows steps from a place. A link is followed unless it is the last step and `follow` is off.
The result is the place reached and what stands there; only the last step may lead to nothing. -/
def walk (tree : FileTree) (follow : Bool) (links : Nat) (place : Place) :
    List String → Except IoCause (Place × Option Entry)
  | [] => .ok (place, tree.entry? place)
  | step :: rest =>
    if step = "" ∨ step = "." then walk tree follow links place rest
    else if step = ".." then walk tree follow links place.dropLast rest
    else if nameLimit < step.utf8ByteSize then .error .nameTooLong
    else
      match tree.entry? (place ++ [step]) with
      | none => if rest.isEmpty then .ok (place ++ [step], none) else .error .noEntry
      | some .directory => walk tree follow links (place ++ [step]) rest
      | some (.file content mode) =>
        if rest.isEmpty then .ok (place ++ [step], some (.file content mode))
        else .error .notDirectory
      | some (.device device) =>
        if rest.isEmpty then .ok (place ++ [step], some (.device device))
        else .error .notDirectory
      | some (.symlink target) =>
        if rest.isEmpty && !follow then .ok (place ++ [step], some (.symlink target))
        else
          match links with
          | 0 => .error .tooManyLinks
          | links + 1 =>
            if target = "" then .error .noEntry
            else
              walk tree follow links (if (steps target).head? = some "" then [] else place)
                (steps target ++ rest)
termination_by steps => (links, steps.length)

/-- Follows a path from the working directory, or from the root. -/
def resolve (tree : FileTree) (follow : Bool) (path : Path) :
    Except IoCause (Place × Option Entry) :=
  match pathFault? path with
  | some cause => .error cause
  | none =>
    tree.walk follow linkLimit (if path.isAbsolute then [] else tree.home) (steps path.spelling)

/-- The place that a path leads to, and what stands there. -/
def locate (tree : FileTree) (follow : Bool) (path : Path) : Except IoCause (Place × Entry) :=
  match tree.resolve follow path with
  | .error cause => .error cause
  | .ok (_, none) => .error .noEntry
  | .ok (place, some entry) => .ok (place, entry)

/-- The absolute path of a place. -/
def pathOf (place : Place) : Path :=
  ⟨"/" ++ "/".intercalate place⟩

/-- The bytes of the file that a path leads to. -/
def readBytes (tree : FileTree) (path : Path) : Except IoCause ByteArray :=
  match tree.locate true path with
  | .error cause => .error cause
  | .ok (_, .file content _) => .ok content
  | .ok (_, .device _) => .ok .empty
  | .ok (_, _) => .error .isDirectory

/-- The text of the file that a path leads to. -/
def readText (tree : FileTree) (path : Path) : Except IoCause String := do
  match String.fromUTF8? (← tree.readBytes path) with
  | some text => return text
  | none => throw .notText

end FileTree

end SourceRepair
