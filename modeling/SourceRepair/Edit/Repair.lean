import SourceRepair.Rule.Catalog

/-!
# The repair for one diagnostic

The rules for a diagnostic's code are tried in order. The first one with a fix decides; a rule that
only points a match out ends the search, because such a line is left to a person; every other rule
is passed over.
-/

namespace SourceRepair

/-- A new text for the window that ends at a diagnostic's line. -/
structure Repair where
  /-- The name of the rule applied. -/
  rule : String
  /-- How many lines above the diagnostic's line are replaced as well. -/
  linesBefore : Nat
  /-- The new text of the whole window; it may consist of several lines. -/
  text : List Char
  deriving DecidableEq, Repr, Inhabited

/-- The repair by the first of `rules` that decides. -/
def Repair.first? (context : LineContext) : List Rule → Option Repair
  | [] => none
  | rule :: more =>
    match rule.evaluate context with
    | .changed text => some ⟨rule.name, rule.window.linesBefore, text⟩
    | .flagged => none
    | .unchanged => first? context more
    | .unmatched => first? context more

namespace Catalog

/-- The repair for a diagnostic at the line `current` between two neighbours. -/
def repair? (catalog : Catalog) (d : Diagnostic) (previous : Option (List Char))
    (current : List Char) (next : Option (List Char)) : Option Repair :=
  Repair.first? ⟨previous, current, next, some d⟩ (catalog.rulesFor d.code)

/-- The line above line `number`, counted from one, if there is one. -/
def lineAbove? (lines : List (List Char)) (number : Nat) : Option (List Char) :=
  if number ≤ 1 then none else lines[number - 2]?

/-- The repair for a diagnostic in a file of the given lines; there is none outside the file. -/
def repairAt? (catalog : Catalog) (lines : List (List Char)) (d : Diagnostic) : Option Repair :=
  if d.line = 0 then none
  else
    lines[d.line - 1]?.bind fun current =>
      catalog.repair? d (lineAbove? lines d.line) current lines[d.line]?

end Catalog

end SourceRepair
