import SourceRepair.Diagnostic.CompilerText
import SourceRepair.Json.Decode

/-!
# Diagnostics in a linter's JSON output

The output lists files with their messages. Every message of the highest severity is a diagnostic; a
message without a rule gets the code `eslint`, and one without a position is at the first character.
A message of any severity that is not of this form makes the whole output unreadable.
-/

namespace SourceRepair.Lint

open Json

/-- The severity of errors. -/
def errorSeverity : Nat := 2

/-- One message about a file. -/
structure Message where
  rule : Option String
  severity : Nat
  line : Option Nat
  column : Option Nat
  text : String
  deriving DecidableEq, Repr

/-- The messages about one file. -/
structure FileReport where
  file : String
  messages : List Message
  deriving DecidableEq, Repr

/-- Reads a position. -/
def position : Decoder (Option Nat) :=
  .nullable (.nat Diagnostic.wordLimit)

/-- Reads a message. -/
def Message.decode : Decoder Message := fun outline => do
  let found ← outline.record [
    .of "ruleId" .optional (.nullable .string),
    .of "severity" .required (.nat 256),
    .of "line" .optional position,
    .of "column" .optional position,
    .of "message" .required .string]
  return {
    rule := (← readField? found "ruleId" (.nullable .string)).join
    severity := ← readField found "severity" (.nat 256)
    line := (← readField? found "line" position).join
    column := (← readField? found "column" position).join
    text := ← readField found "message" .string }

/-- Reads the report on a file; it may come without messages. -/
def FileReport.decode : Decoder FileReport := fun outline => do
  let found ← outline.record [
    .of "filePath" .required .string,
    .of "messages" .defaulted (.list Message.decode)]
  return {
    file := ← readField found "filePath" .string
    messages := (← readField? found "messages" (.list Message.decode)).getD [] }

/-- The diagnostic for a message, if it is an error. -/
def Message.diagnostic? (file : Path) (m : Message) : Option Diagnostic :=
  if m.severity = errorSeverity then
    some {
      file := file
      line := m.line.getD 1
      column := m.column.getD 1
      code := m.rule.getD "eslint"
      message := m.text }
  else none

/-- The diagnostics about one file, its path seen from `root`. -/
def FileReport.diagnostics (root : Path) (report : FileReport) : List Diagnostic :=
  report.messages.filterMap (Message.diagnostic? (root.resolve ⟨report.file⟩))

/-- The diagnostics that a linter's output reports. White space around the output does not count. -/
def diagnosticsOfText (root : Path) (text : String) : Except Fault (List Diagnostic) := do
  let reports ← decodeText (.list FileReport.decode) (Text.trim text.toList)
  return reports.flatMap (FileReport.diagnostics root)

end SourceRepair.Lint
