import SourceRepair.Diagnostic.Basic
import SourceRepair.FileTree.Basic

/-!
# Sources of diagnostics

A run asks for the diagnostics of a project once before and once after its repairs. What answers is
a source: usually the compiler, which looks at the files and may also change some. A scripted source
gives answers that were laid down beforehand, and counts the questions.
-/

namespace SourceRepair

/-- A source of diagnostics with a state of its own. An answer may change that state and the
files. -/
structure DiagnosticSource (σ : Type) where
  collect : σ → FileTree → Except Failure (List Diagnostic) × σ × FileTree

/-- What is left of a script, and how many questions have been asked. -/
structure Script where
  responses : List (Except Failure (List Diagnostic))
  calls : Nat := 0

/-- Gives the next answer of a script; a script that has come to its end fails. -/
def Script.next (script : Script) : Except Failure (List Diagnostic) × Script :=
  match script.responses with
  | [] =>
    (.error (.config (.other "mock diagnostic source exhausted")), ⟨[], script.calls + 1⟩)
  | response :: responses => (response, ⟨responses, script.calls + 1⟩)

/-- The source that follows a script and leaves the files alone. -/
def Script.source : DiagnosticSource Script where
  collect script tree := (script.next.1, script.next.2, tree)

end SourceRepair
