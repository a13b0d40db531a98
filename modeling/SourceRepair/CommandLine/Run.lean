import SourceRepair.CommandLine.Arguments
import SourceRepair.Compiler.Extractor
import SourceRepair.Run.Repair
import SourceRepair.Scan.Files
import SourceRepair.TypeScript.Rules

/-!
# The commands

Each command loads the configuration, warns about keys that mean nothing, and then repairs, counts,
scans or lists. What it prints, what it tells the user and how it changes the files are its outcome.
-/

namespace SourceRepair

open Json (Value)

/-- Why a command fails. -/
inductive CommandFailure where
  | because (cause : Failure)
  | noCommand
  deriving DecidableEq, Repr, Inhabited

/-- The failure in words. -/
def CommandFailure.message : CommandFailure → String
  | .because cause => cause.message
  | .noCommand => "No command given; see --help"

/-- What a command finds around it: the directory of the user's configuration file, the way to start
programs, and the moments at which it starts and ends. -/
structure Surroundings where
  configDirectory : Path
  launcher : Launcher
  start : Instant
  stop : Instant

/-- What has come of a command so far. -/
structure Session where
  stdout : String := ""
  notices : List Notice := []
  failure : Option CommandFailure := none
  tree : FileTree

namespace Session

/-- Prints a line. -/
def print (session : Session) (line : String) : Session :=
  { session with stdout := session.stdout ++ line ++ "\n" }

/-- Prints lines. -/
def printAll (session : Session) (lines : List String) : Session :=
  lines.foldl print session

/-- Tells the user something. -/
def tell (session : Session) (notices : List Notice) : Session :=
  { session with notices := session.notices ++ notices }

/-- Ends in failure. -/
def fail (session : Session) (failure : Failure) : Session :=
  { session with failure := some (.because failure) }

end Session

/-! ## Repairing and counting -/

/-- What the user is told about a run. -/
def RepairSummary.notices (summary : RepairSummary) : List Notice :=
  let seconds := summary.startTime.wholeSeconds summary.endTime
  let verdict : Notice :=
    match summary.validation with
    | none => .info "Dry run; nothing was written. Re-run with --live to apply."
    | some report =>
      if report.success then
        .info ("✅ " ++ report.targetCode ++ " " ++ toString report.beforeTarget ++ " -> "
          ++ toString report.afterTarget ++ " (net improvement "
          ++ toString report.netImprovement ++ ")")
      else .runFailed report.failures
  [.info "\n=== Repair Summary ===",
    .info ("Code: " ++ summary.targetCode),
    .info ("Diagnostics: " ++ toString summary.targetDiagnostics ++ " of "
      ++ toString summary.totalDiagnostics),
    .info ("Files processed: " ++ toString summary.filesProcessed),
    .info ("Files skipped: " ++ toString summary.filesSkipped),
    .info ("Edits: " ++ toString summary.editsApplied),
    .info ("Duration: " ++ toString seconds ++ "s"),
    verdict]

/-- Saves the summary of a run, if that is configured. -/
def Session.saveReport (session : Session) (config : Config) (summary : RepairSummary) :
    Session :=
  match config.report with
  | none => session
  | some path =>
    match summary.save path session.tree with
    | .error failure => session.fail failure
    | .ok tree =>
      { session with tree }.tell [.info ("Detailed summary saved to: " ++ path.spelling)]

/-- The extractor for the configured project. -/
def Config.extractor (config : Config) (tree : FileTree) : Except Failure Extractor :=
  Extractor.ofRoot tree config.projectRoot config.compiler

/-- Repairs every diagnostic of a code. -/
def Session.repair (session : Session) (around : Surroundings) (config : Config)
    (code : String) : Session :=
  match config.extractor session.tree with
  | .error failure => session.fail failure
  | .ok extractor =>
    let options : RepairOptions := ⟨code, if config.dryRun then .preview else .write⟩
    let answer := runRepair (extractor.source around.launcher) TypeScript.catalog options
      around.start around.stop () session.tree
    let session := { session with tree := answer.tree }.tell answer.notices
    match answer.outcome with
    | .error failure => session.fail failure
    | .ok summary => (session.tell summary.notices).saveReport config summary

/-- The lines of a count. -/
def countLines (code : Option String) (diagnostics : List Diagnostic) : List String :=
  let line (code : String) (n : Nat) : String := code ++ ": " ++ toString n
  match code with
  | some code => [line code (Diagnostic.countCode code diagnostics)]
  | none =>
    (Diagnostic.countByCode diagnostics).map (fun (code, n) => line code n)
      ++ [line "total" diagnostics.length]

/-- Counts diagnostics. -/
def Session.count (session : Session) (around : Surroundings) (config : Config)
    (code : Option String) : Session :=
  match config.extractor session.tree with
  | .error failure => session.fail failure
  | .ok extractor =>
    let (outcome, tree) := extractor.collect around.launcher session.tree
    let session := { session with tree }
    match outcome with
    | .error failure => session.fail failure
    | .ok diagnostics => session.printAll (countLines code diagnostics)

/-! ## Scanning and listing -/

/-- The lines about the findings in a file. -/
def FileFindings.lines (found : FileFindings) : List String :=
  found.findings.map fun finding =>
    found.path.spelling ++ ":" ++ toString finding.line ++ ":" ++ toString finding.column ++ ": "
      ++ finding.severity.word ++ " [" ++ finding.rule ++ "] " ++ finding.message

/-- Looks for patterns that need no compiler. -/
def Session.scan (session : Session) (config : Config) (paths : List Path) (fix json : Bool) :
    Session :=
  let roots := if paths = [] then [config.projectRoot] else paths
  let mode : WriteMode := if fix then .write else .preview
  let (results, notices, tree) :=
    scanRoots TypeScript.catalog.staticRules mode config.scan roots session.tree
  let session := { session with tree }.tell notices
  let session :=
    if json then session.print (Value.array (results.map (·.toJson))).pretty
    else session.printAll (results.flatMap (·.lines))
  let findings := (results.flatMap (·.findings)).length
  let fixed := results.foldr (fun result fixed => result.fixesApplied + fixed) 0
  session.tell [.info (toString findings ++ " finding(s) in " ++ toString results.length
    ++ " file(s), " ++ toString fixed ++ " fixed")]

/-- A text filled up with blanks to a width. -/
def padTo (width : Nat) (text : String) : String :=
  text ++ String.ofList (List.replicate (width - text.length) ' ')

/-- The lines of the list of rules. -/
def Catalog.lines (catalog : Catalog) : List String :=
  catalog.listing.map fun (code, rule) =>
    padTo 42 code ++ " " ++ padTo 28 rule.name ++ " " ++ padTo 8 rule.severity.word ++ " "
      ++ rule.description

/-! ## All commands -/

/-- Does what a command says. -/
def Session.perform (session : Session) (around : Surroundings) (config : Config) :
    Option Command → Session
  | some (.repair code _ _) => session.repair around config code
  | some (.count code) => session.count around config code
  | some (.scan paths fix json) => session.scan config paths fix json
  | some .rules => session.printAll TypeScript.catalog.lines
  | none => { session with failure := some .noCommand }

/-- Does what the arguments ask for. -/
def Arguments.run (args : Arguments) (around : Surroundings) (tree : FileTree) : Session :=
  let session : Session := { tree }
  if args.printConfigPath then
    let path := Config.userFile around.configDirectory
    session.print ("Config file location: " ++ Text.quoted path.spelling)
  else
    match Config.load tree around.configDirectory args.configFlags with
    | .error fault => session.fail (.config fault)
    | .ok config => (session.tell config.notices).perform around config args.command

end SourceRepair
