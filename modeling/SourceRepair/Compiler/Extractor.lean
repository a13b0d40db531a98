import SourceRepair.Config.Basic
import SourceRepair.Diagnostic.LintJson
import SourceRepair.Diagnostic.Source
import SourceRepair.Text.Utf8

/-!
# Running the compiler

The compiler is run in the root of the project, and what it prints is read as diagnostics. That it
reports failure is the usual case and no failure here; only a compiler that does not start is one.
How programs are started is left to a `Launcher`.
-/

namespace SourceRepair

/-- What a program printed. -/
structure Printed where
  stdout : ByteArray
  stderr : ByteArray

/-- A way to start programs: run in the tree's working directory, a program with its arguments
prints something and may change the files, or it does not start. -/
structure Launcher where
  launch : String → List String → FileTree → Except IoCause Printed × FileTree

/-- A compiler and the root of the project that it is run in. -/
structure Extractor where
  root : Place
  command : CompilerCommand
  deriving DecidableEq, Repr

namespace Extractor

/-- The extractor for a project; its root has to be a directory. -/
def ofRoot (tree : FileTree) (root : Path) (command : CompilerCommand) :
    Except Failure Extractor :=
  match tree.locate true root with
  | .error _ => .error (.invalidProjectRoot root)
  | .ok (place, .directory) => .ok ⟨place, command⟩
  | .ok (place, _) => .error (.invalidProjectRoot (FileTree.pathOf place))

/-- The diagnostics in what the compiler printed. A linter's are in its standard output, those of
the TypeScript compiler in both its outputs. -/
def read (extractor : Extractor) (printed : Printed) : Except Failure (List Diagnostic) :=
  let root := FileTree.pathOf extractor.root
  let stdout := Text.ofBytes printed.stdout.toList
  let stderr := Text.ofBytes printed.stderr.toList
  match extractor.command.format with
  | .tsc => .ok (Diagnostic.ofCompilerText root (String.ofList (stdout ++ '\n' :: stderr)))
  | .eslintJson =>
    match Lint.diagnosticsOfText root (String.ofList stdout) with
    | .ok diagnostics => .ok diagnostics
    | .error fault => .error (.json fault)

/-- Runs the compiler and reads what it prints. -/
def collect (extractor : Extractor) (launcher : Launcher) (tree : FileTree) :
    Except Failure (List Diagnostic) × FileTree :=
  let command := extractor.command
  let (printed, after) :=
    launcher.launch command.program command.args { tree with home := extractor.root }
  let after := { after with home := tree.home }
  match printed with
  | .error cause => (.error (.compilerLaunch command.program cause), after)
  | .ok printed => (extractor.read printed, after)

/-- The compiler as a source of diagnostics. -/
def source (extractor : Extractor) (launcher : Launcher) : DiagnosticSource Unit where
  collect _ tree :=
    let (outcome, tree) := extractor.collect launcher tree
    (outcome, (), tree)

end Extractor

end SourceRepair
