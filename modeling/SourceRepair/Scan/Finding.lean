import SourceRepair.Rule.Catalog

/-!
# Scanning a document without a compiler

The static rules of a catalog are matched against a whole document. Each match in code is a finding,
with its position and, where the rule has one, its fix. Findings are listed by position, and those
at one position in the order of the rules.
-/

namespace SourceRepair

/-- A replacement for a range of byte offsets, without its end. -/
structure TextEdit where
  start : Nat
  stop : Nat
  replacement : List Char
  deriving DecidableEq, Repr, Inhabited

/-- One match of a static rule. -/
structure Finding where
  rule : String
  severity : Severity
  line : Nat
  column : Nat
  matched : List Char
  message : String
  fix : Option TextEdit
  deriving DecidableEq, Repr, Inhabited

/-- The line of the place after a text, which is given nearest character first. -/
def lineAfter (before : List Char) : Nat :=
  before.count '\n' + 1

/-- The column of the place after a text, which is given nearest character first. -/
def columnAfter (before : List Char) : Nat :=
  (before.takeWhile (· != '\n')).length + 1

namespace Finding

/-- The finding for one match of a rule. -/
def ofMatch (rule : Rule) (m : Match) : Finding where
  rule := rule.name
  severity := rule.severity
  line := lineAfter m.before
  column := columnAfter m.before
  matched := m.text
  message := rule.description
  fix := (rule.suggest? m).map fun replacement => ⟨m.start, m.stop, replacement⟩

/-- Whether `a` comes at or before `b` in a document. -/
def positionLE (a b : Finding) : Bool :=
  a.line < b.line || (a.line == b.line && a.column ≤ b.column)

end Finding

/-- The findings of some rules in a text. -/
def scan (rules : List Rule) (text : List Char) : List Finding :=
  (rules.flatMap fun rule => (rule.codeMatches text).map (Finding.ofMatch rule)).mergeSort
    Finding.positionLE

namespace TextEdit

/-- Whether `a` comes at or before `b` in the order in which edits are applied. -/
def rangeLE (a b : TextEdit) : Bool :=
  a.start < b.start || (a.start == b.start && a.stop ≤ b.stop)

/-- Applies edits in order to the text `rest` that starts at offset `pos`, and counts them. An edit
that starts before that offset overlaps the one before it and is dropped. -/
def applyFrom (pos : Nat) (rest : List Char) : List TextEdit → List Char × Nat
  | [] => (rest, 0)
  | edit :: more =>
    if edit.start < pos then applyFrom pos rest more
    else
      let (kept, tail) := Text.splitAtByte (edit.start - pos) rest
      let (_, tail) := Text.splitAtByte (edit.stop - edit.start) tail
      let (out, count) := applyFrom edit.stop tail more
      (kept ++ edit.replacement ++ out, count + 1)

end TextEdit

/-- Applies the fixes of findings to a text, and counts those applied. Where fixes overlap, the one
that starts first is applied. -/
def applyFixes (text : List Char) (findings : List Finding) : List Char × Nat :=
  TextEdit.applyFrom 0 text ((findings.filterMap (·.fix)).mergeSort TextEdit.rangeLE)

end SourceRepair
