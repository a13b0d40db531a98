import SourceRepair.Text.Basic

/-!
# Paths

A path keeps the spelling it was given in, because that spelling is what reports show. Two spellings
name the same place in a listing when their components agree: repeated and final slashes, and `.`
anywhere but at the front of a relative path, do not count. `..` always does.
-/

namespace SourceRepair

/-- A step of a path; steps are ordered as listed, and names by code points. -/
inductive Component where
  /-- The slash that an absolute path starts with. -/
  | root
  /-- A leading `.`. -/
  | here
  /-- A `..`. -/
  | parent
  | entry (name : String)
  deriving DecidableEq, Repr, Ord, Inhabited

namespace Component

/-- The component that a piece between two slashes stands for. -/
def ofPiece (piece : List Char) : Component :=
  if piece = ['.'] then .here
  else if piece = ['.', '.'] then .parent
  else .entry (String.ofList piece)

/-- The component as a piece of a path. -/
def toPiece : Component → List Char
  | .root => []
  | .here => ['.']
  | .parent => ['.', '.']
  | .entry name => name.toList

/-- Compares two sequences of components step by step; a proper beginning comes first. -/
def compareAll : List Component → List Component → Ordering
  | [], [] => .eq
  | [], _ :: _ => .lt
  | _ :: _, [] => .gt
  | a :: as, b :: bs => (compare a b).then (compareAll as bs)

end Component

/-- A path in the spelling it was given in. -/
structure Path where
  spelling : String
  deriving DecidableEq, Repr, Inhabited

namespace Path

/-- Whether the path starts at the root. -/
def isAbsolute (p : Path) : Bool :=
  p.spelling.toList.head? == some '/'

/-- The components of the pieces between slashes, with empty pieces and `.` left out. -/
def componentsOfPieces (pieces : List (List Char)) : List Component :=
  ((pieces.filter (!·.isEmpty)).map Component.ofPiece).filter (· != .here)

/-- The components of a path. -/
def components (p : Path) : List Component :=
  let pieces := Text.pieces '/' p.spelling.toList
  if p.isAbsolute then .root :: componentsOfPieces pieces
  else if pieces.head? = some ['.'] then .here :: componentsOfPieces pieces
  else componentsOfPieces pieces

/-- The plainest spelling of a sequence of components. -/
def ofComponents : List Component → Path
  | .root :: rest => ⟨String.ofList ('/' :: Text.join ['/'] (rest.map Component.toPiece))⟩
  | components => ⟨String.ofList (Text.join ['/'] (components.map Component.toPiece))⟩

/-- The path `p` as seen from `base`: an absolute path stands for itself. -/
def join (base p : Path) : Path :=
  if p.isAbsolute then p
  else
    match base.spelling.toList.getLast? with
    | none => p
    | some '/' => ⟨base.spelling ++ p.spelling⟩
    | some _ => ⟨base.spelling ++ "/" ++ p.spelling⟩

/-- The path `p` as seen from `base`, spelled without `.` and superfluous slashes. -/
def resolve (base p : Path) : Path :=
  ofComponents ((base.join p).components.filter (· != .here))

/-- Paths are ordered by their components, and equal in this order when those agree. -/
def order (p q : Path) : Ordering :=
  Component.compareAll p.components q.components

/-- What follows the last dot of a file name; a name whose only dot comes first has none. -/
def nameExtension? (name : String) : Option String :=
  match Text.pieces '.' name.toList with
  | [] | [_] => none
  | [[], _] => none
  | pieces => pieces.getLast?.map String.ofList

/-- The directory that holds the path's last component; `.` for a bare name. -/
def directory (p : Path) : Path :=
  match p.components.dropLast with
  | [] => ⟨"."⟩
  | components => ofComponents components

end Path

end SourceRepair
