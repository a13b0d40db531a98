import SourceRepair.Json.Value
import SourceRepair.Notice

/-!
# The configuration

What a run needs to know: the root of the project, whether files are written, how the compiler is
started and what its output looks like, and which files a scan looks at. Keys that mean nothing are
kept with their values, so that the user can be warned.
-/

namespace SourceRepair

open Json (Value)

/-- The shape of a compiler's output. -/
inductive OutputFormat where
  /-- One diagnostic a line, as the TypeScript compiler writes them. -/
  | tsc
  /-- A linter's JSON. -/
  | eslintJson
  deriving DecidableEq, Repr, Inhabited

/-- The formats by their names in a configuration. -/
def OutputFormat.ofName? : String → Option OutputFormat
  | "tsc" => some .tsc
  | "eslint-json" => some .eslintJson
  | _ => none

/-- How to start the compiler and how to read what it prints. -/
structure CompilerCommand where
  program : String
  args : List String
  format : OutputFormat
  deriving DecidableEq, Repr, Inhabited

/-- The TypeScript compiler, run through `npx`. -/
def CompilerCommand.tsc : CompilerCommand where
  program := "npx"
  args := ["tsc", "--noEmit", "--pretty", "false"]
  format := .tsc

/-- Which files a scan looks at. -/
structure ScanConfig where
  /-- The extensions of source files. -/
  extensions : List String := ["ts", "tsx"]
  /-- The names of directories that are not searched. -/
  excludeDirs : List String := ["node_modules", ".git", "dist"]
  deriving DecidableEq, Repr, Inhabited

/-- Keys that mean nothing, with their values, in increasing order. -/
abbrev UnknownKeys : Type := List (String × Value)

/-- A whole configuration. -/
structure Config where
  projectRoot : Path
  dryRun : Bool
  /-- Where the summary of a run is saved, if anywhere. -/
  report : Option Path
  compiler : CompilerCommand
  scan : ScanConfig
  unknown : UnknownKeys
  unknownCompiler : UnknownKeys
  unknownScan : UnknownKeys
  deriving Inhabited

/-- The warnings about unknown keys, first those at the top. -/
def Config.notices (config : Config) : List Notice :=
  config.unknown.map (fun (key, _) => .unknownKey key)
    ++ config.unknownCompiler.map (fun (key, _) => .unknownKey ("compiler." ++ key))
    ++ config.unknownScan.map (fun (key, _) => .unknownKey ("scan." ++ key))

end SourceRepair
