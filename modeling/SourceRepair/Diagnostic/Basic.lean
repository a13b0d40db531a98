import SourceRepair.Path

/-!
# Diagnostics

A diagnostic is one error that a compiler or a linter reported: where it is, the code of its kind,
and a message. Lines and columns count from one, columns in characters.
-/

namespace SourceRepair

/-- One reported error. -/
structure Diagnostic where
  file : Path
  line : Nat
  column : Nat
  code : String
  message : String
  deriving DecidableEq, Repr, Inhabited

namespace Diagnostic

/-- The one-line form, `path(line,column): error CODE: message`. -/
def display (d : Diagnostic) : String :=
  d.file.spelling ++ "(" ++ toString d.line ++ "," ++ toString d.column ++ "): error " ++ d.code
    ++ ": " ++ d.message

/-- The diagnostics with the given code, in order. -/
def withCode (code : String) (diagnostics : List Diagnostic) : List Diagnostic :=
  diagnostics.filter (·.code == code)

/-- The number of diagnostics with the given code. -/
def countCode (code : String) (diagnostics : List Diagnostic) : Nat :=
  diagnostics.countP (·.code == code)

/-- The codes that occur, each once, in increasing order. -/
def codes (diagnostics : List Diagnostic) : List String :=
  ((diagnostics.map (·.code)).mergeSort (· ≤ ·)).eraseReps

/-- How often each code occurs, in increasing order of the codes. -/
def countByCode (diagnostics : List Diagnostic) : List (String × Nat) :=
  (codes diagnostics).map fun code => (code, countCode code diagnostics)

/-- Whether `a` comes at or before `b` when going from the bottom of a file up, and in a line from
right to left. -/
def bottomUpLE (a b : Diagnostic) : Bool :=
  b.line < a.line || (b.line == a.line && b.column ≤ a.column)

/-- The diagnostics from the bottom of the file up; those at one position keep their order. -/
def sortBottomUp (diagnostics : List Diagnostic) : List Diagnostic :=
  diagnostics.mergeSort bottomUpLE

/-! ## Grouping by file -/

/-- Adds a diagnostic to the group of its file, in a list of groups in the order of their paths. A
new file opens a new group under the spelling it came with. -/
def addToGroups (d : Diagnostic) :
    List (Path × List Diagnostic) → List (Path × List Diagnostic)
  | [] => [(d.file, [d])]
  | (path, group) :: more =>
    match d.file.order path with
    | .lt => (d.file, [d]) :: (path, group) :: more
    | .eq => (path, group ++ [d]) :: more
    | .gt => (path, group) :: addToGroups d more

/-- The diagnostics of each file, in the order of the files' paths; within a file they keep their
order, and the file goes by the first spelling seen. -/
def groupByFile (diagnostics : List Diagnostic) : List (Path × List Diagnostic) :=
  diagnostics.foldl (fun groups d => addToGroups d groups) []

end Diagnostic

end SourceRepair
