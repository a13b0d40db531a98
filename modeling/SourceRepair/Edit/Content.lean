import SourceRepair.Edit.Plan
import SourceRepair.Text.Line

/-!
# Applying planned edits to a file's content

The edits are spliced into the lines from the bottom of the file up, so that no splice shifts a line
that a later one refers to. Untouched lines keep their text and terminator byte for byte.
-/

namespace SourceRepair

/-- Edits from the bottom of the file up; those that start in one line keep their order. -/
def PlannedEdit.bottomUp (edits : List PlannedEdit) : List PlannedEdit :=
  edits.mergeSort fun edit later => later.firstLine ≤ edit.firstLine

namespace Line

/-- The first terminator in use, and a line feed where there is none. -/
def commonEnding (lines : List Line) : Ending :=
  ((lines.map (·.ending)).find? (· != .missing)).getD .lineFeed

/-- Gives new lines their terminators: `inner`, but `final` for the last one. -/
def dress (inner final : Ending) : List (List Char) → List Line
  | [] => []
  | [text] => [⟨text, final⟩]
  | text :: more => ⟨text, inner⟩ :: dress inner final more

/-- Replaces the lines of one edit. The last new line takes the terminator of the last line
replaced, and so do the others, unless that one has none: then they take the file's common
terminator. -/
def splice (lines : List Line) (edit : PlannedEdit) : List Line :=
  let final := (lines[edit.lastLine - 1]?.map (·.ending)).getD .missing
  let inner := if final = .missing then commonEnding lines else final
  lines.take (edit.firstLine - 1) ++ dress inner final edit.replacement
    ++ lines.drop edit.lastLine

/-- Replaces the lines of edits, one edit after the other. -/
def applyEdits (edits : List PlannedEdit) (lines : List Line) : List Line :=
  edits.foldl splice lines

end Line

/-- What became of one file. -/
structure EditResult where
  file : Path
  finalContent : List Char
  edits : List PlannedEdit
  /-- Whether the final content was written back. -/
  written : Bool
  deriving Repr, Inhabited

namespace EditResult

/-- The rules applied, edit by edit. -/
def rules (result : EditResult) : List String :=
  result.edits.flatMap (·.rules)

/-- The number of diagnostics that changed the file. -/
def editsApplied (result : EditResult) : Nat :=
  result.rules.length

end EditResult

namespace Catalog

/-- Repairs a file's content for a batch of diagnostics. -/
def fixContent (catalog : Catalog) (file : Path) (content : List Char)
    (batch : List Diagnostic) : EditResult :=
  let lines := Line.ofText content
  let edits := catalog.planEdits (lines.map (·.text)) batch
  ⟨file, Line.render (Line.applyEdits (PlannedEdit.bottomUp edits) lines), edits, false⟩

end Catalog

end SourceRepair
