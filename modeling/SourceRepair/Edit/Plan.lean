import SourceRepair.Edit.Repair

/-!
# Planning the edits of a file

Repairs are planned against the file as it was when the diagnostics were reported, from the bottom
of the file up, so that a line number always means the line it was reported for. The diagnostics of
one line are folded from right to left into one edit. A repair that also replaces the line above
claims it: diagnostics on a claimed line are passed over.
-/

namespace SourceRepair

/-- A replacement of the lines `firstLine` to `lastLine`, both included and counted from one. -/
structure PlannedEdit where
  firstLine : Nat
  lastLine : Nat
  replacement : List (List Char)
  /-- The rules applied, in order, one for each diagnostic repaired. -/
  rules : List String
  deriving DecidableEq, Repr, Inhabited

/-- What the repairs of one line's diagnostics make of it. -/
structure FoldedLine where
  text : List Char
  /-- How many lines above are replaced as well. -/
  linesBefore : Nat
  rules : List String
  deriving DecidableEq, Repr, Inhabited

namespace Catalog

/-- Repairs a line for each of its diagnostics in turn. A repair that takes in the line above is the
last one, since columns mean nothing in the joined text. -/
def foldLine (catalog : Catalog) (previous next : Option (List Char)) :
    List Diagnostic → List Char → FoldedLine
  | [], text => ⟨text, 0, []⟩
  | d :: more, text =>
    match catalog.repair? d previous text next with
    | none => foldLine catalog previous next more text
    | some repair =>
      if repair.linesBefore = 0 then
        let folded := foldLine catalog previous next more repair.text
        { folded with rules := repair.rule :: folded.rules }
      else ⟨repair.text, repair.linesBefore, [repair.rule]⟩

/-- The edit for the diagnostics `group` of one line, unless the line lies outside the file or at or
below `claimed`, or no repair applies. -/
def planLine? (catalog : Catalog) (lines : List (List Char)) (claimed : Option Nat)
    (group : List Diagnostic) : Option PlannedEdit := do
  let number := (← group.head?).line
  if number = 0 ∨ claimed.any (· ≤ number) then none
  else
    let current ← lines[number - 1]?
    let folded := catalog.foldLine (lineAbove? lines number) lines[number]? group current
    if folded.rules.isEmpty then none
    else
      some ⟨number - folded.linesBefore, number, Text.pieces '\n' folded.text, folded.rules⟩

/-- The edits for groups of diagnostics, one group a line, from the bottom up; `claimed` is the
first line of the last edit planned. -/
def planGroups (catalog : Catalog) (lines : List (List Char)) :
    Option Nat → List (List Diagnostic) → List PlannedEdit
  | _, [] => []
  | claimed, group :: more =>
    match catalog.planLine? lines claimed group with
    | none => planGroups catalog lines claimed more
    | some edit => edit :: planGroups catalog lines (some edit.firstLine) more

/-- The edits for a batch of diagnostics in a file of the given lines, from the bottom up. -/
def planEdits (catalog : Catalog) (lines : List (List Char)) (batch : List Diagnostic) :
    List PlannedEdit :=
  catalog.planGroups lines none
    ((Diagnostic.sortBottomUp batch).splitBy fun a b => a.line == b.line)

end Catalog

end SourceRepair
