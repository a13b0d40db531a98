import SourceRepair.Config.Layers

/-!
# Arguments

The arguments name a command, and options for the program or for the command. Options that both know
may stand before or after the command; what stands after it counts. An option with a value takes it
from the same argument or from the next one, and every option but the settings may be given once.
After `--` nothing is an option.

An argument that stands alone is looked at when the next one or the end shows that it is complete,
so that a fault in it comes after an unknown option next to it.
-/

namespace SourceRepair

/-- What the program is to do. -/
inductive Command where
  /-- Repair every diagnostic of a code. -/
  | repair (code : String) (live : Bool) (report : Option Path)
  /-- Count diagnostics, of one code or of each. -/
  | count (code : Option String)
  /-- Look for patterns that need no compiler. -/
  | scan (paths : List Path) (fix json : Bool)
  /-- List the rules. -/
  | rules
  deriving DecidableEq, Repr, Inhabited

/-- What the program was asked for. -/
structure Arguments where
  assignments : List String
  root : Option Path
  verbose : Bool
  printConfigPath : Bool
  command : Option Command
  deriving DecidableEq, Repr, Inhabited

/-- Why arguments are not obeyed. -/
inductive ArgumentFault where
  /-- They ask for help. -/
  | helpWanted
  /-- A value is missing or empty. -/
  | invalidValue
  | unknownArgument
  | unknownCommand
  /-- An option is given twice. -/
  | repeated
  /-- A flag is given a value. -/
  | uselessValue
  | missingArgument
  deriving DecidableEq, Repr, Inhabited

/-- How the program is used. -/
def usage : String :=
  "\n".intercalate [
    "Usage: mender [OPTIONS] [COMMAND]",
    "",
    "Commands:",
    "  repair --code CODE [--live] [--report FILE]",
    "  count [--code CODE]",
    "  scan [--fix] [--json] [PATHS]...",
    "  rules",
    "  help [COMMAND]",
    "",
    "Options:",
    "  -c, --config NAME=VALUE",
    "      --root DIR",
    "  -v, --verbose",
    "      --print-config-path",
    "  -h, --help"]

/-- The fault in words. -/
def ArgumentFault.message : ArgumentFault → String
  | .helpWanted => usage
  | .invalidValue => "error: a value is missing or empty"
  | .unknownArgument => "error: unexpected argument"
  | .unknownCommand => "error: unrecognized subcommand"
  | .repeated => "error: an argument cannot be used multiple times"
  | .uselessValue => "error: unexpected value"
  | .missingArgument => "error: a required argument was not provided"

namespace Arguments

/-! ## Options -/

/-- A level of arguments: those of the program, and those of each command. -/
inductive Scope where
  | program
  | repair
  | count
  | scan
  | rules
  deriving DecidableEq, Repr, Inhabited

/-- The options, at whatever level. -/
inductive OptionName where
  | config
  | root
  | verbose
  | help
  | printConfigPath
  | code
  | live
  | report
  | fix
  | json
  deriving DecidableEq, Repr, Inhabited

namespace OptionName

/-- The long form, without its dashes. -/
def long : OptionName → String
  | config => "config"
  | root => "root"
  | verbose => "verbose"
  | help => "help"
  | printConfigPath => "print-config-path"
  | code => "code"
  | live => "live"
  | report => "report"
  | fix => "fix"
  | json => "json"

/-- The letter of the short form, if there is one. -/
def short? : OptionName → Option Char
  | config => some 'c'
  | verbose => some 'v'
  | help => some 'h'
  | _ => none

/-- Whether a value belongs to the option. -/
def takesValue : OptionName → Bool
  | config | root | code | report => true
  | _ => false

/-- Whether the value is a path, and so may not be empty. -/
def isPath : OptionName → Bool
  | root | report => true
  | _ => false

end OptionName

namespace Scope

/-- The commands by their names. -/
def ofName? : String → Option Scope
  | "repair" => some .repair
  | "count" => some .count
  | "scan" => some .scan
  | "rules" => some .rules
  | _ => none

/-- The options of a level. -/
def options : Scope → List OptionName
  | program => .printConfigPath :: shared
  | repair => .code :: .live :: .report :: shared
  | count => .code :: shared
  | scan => .fix :: .json :: shared
  | rules => shared
where
  /-- The options of every level. -/
  shared : List OptionName := [.config, .root, .verbose, .help]

end Scope

/-- The name of the command that shows help. -/
def helpName : String := "help"

/-- Whether an argument names a command. -/
def isCommandName (arg : String) : Bool :=
  arg = helpName || (Scope.ofName? arg).isSome

/-! ## Gathering the arguments of a level -/

/-- What is read but not yet looked at. -/
inductive Pending where
  | nothing
  /-- An option, and its value if that has come. -/
  | option (name : OptionName) (value : Option String)
  | paths (values : List String)
  deriving DecidableEq, Repr, Inhabited

/-- The arguments of a level so far. -/
structure Gathered where
  options : List (OptionName × String) := []
  paths : List String := []
  pending : Pending := .nothing
  deriving DecidableEq, Repr, Inhabited

namespace Gathered

/-- Whether an option is given. -/
def has (g : Gathered) (name : OptionName) : Bool :=
  g.options.any (·.1 == name)

/-- Adds an option with its value; a flag has an empty one. -/
def add (g : Gathered) (name : OptionName) (value : String) : Except ArgumentFault Gathered :=
  if name ≠ .config ∧ g.has name then .error .repeated
  else if name.isPath ∧ value = "" then .error .invalidValue
  else .ok { g with options := g.options ++ [(name, value)] }

/-- Looks at what is pending. -/
def settle (g : Gathered) : Except ArgumentFault Gathered :=
  let settled := { g with pending := .nothing }
  match g.pending with
  | .nothing => .ok settled
  | .option _ none => .error .invalidValue
  | .option name (some value) => settled.add name value
  | .paths values =>
    if values.contains "" then .error .invalidValue
    else .ok { settled with paths := g.paths ++ values }

/-- Takes an option that has its value with it. -/
def take (g : Gathered) (name : OptionName) (value : String) :
    Except ArgumentFault Gathered := do
  (← g.settle).add name value

/-- Takes an option whose value is the next argument. -/
def await (g : Gathered) (name : OptionName) : Except ArgumentFault Gathered := do
  return { (← g.settle) with pending := .option name none }

/-- Takes a flag. -/
def flag (g : Gathered) (name : OptionName) : Except ArgumentFault Gathered := do
  let g ← g.settle
  if name = .help then throw .helpWanted
  g.add name ""

/-- Takes a long option, given without its dashes. -/
def long (scope : Scope) (g : Gathered) (arg : List Char) : Except ArgumentFault Gathered :=
  let word := String.ofList (arg.takeWhile (· != '='))
  match scope.options.find? (·.long == word), arg.dropWhile (· != '=') with
  | none, _ => .error .unknownArgument
  | some name, [] => if name.takesValue then g.await name else g.flag name
  | some name, _ :: value =>
    if name.takesValue then g.take name (String.ofList value) else .error .uselessValue

/-- Takes short options, given without their dash. The rest after one that takes a value is its
value, perhaps after a `=`. -/
def shorts (scope : Scope) (g : Gathered) : List Char → Except ArgumentFault Gathered
  | [] => .ok g
  | c :: rest =>
    match scope.options.find? (·.short? == some c) with
    | none => .error .unknownArgument
    | some name =>
      if name.takesValue then
        match rest with
        | [] => g.await name
        | '=' :: value => g.take name (String.ofList value)
        | value => g.take name (String.ofList value)
      else do
        (← g.flag name).shorts scope rest

/-- Takes an argument that is no option. -/
def plain (scope : Scope) (trailing : Bool) (g : Gathered) (arg : String) :
    Except ArgumentFault Gathered :=
  match scope with
  | .program =>
    .error (if trailing && isCommandName arg then .unknownArgument else .unknownCommand)
  | .scan =>
    match g.pending with
    | .paths values => .ok { g with pending := .paths (values ++ [arg]) }
    | _ => do return { (← g.settle) with pending := .paths [arg] }
  | _ => .error .unknownArgument

end Gathered

/-- The fault in asking for help about commands. -/
def helpFault : List String → ArgumentFault
  | [] => .helpWanted
  | [name] => if isCommandName name then .helpWanted else .unknownCommand
  | _ => .unknownCommand

/-- Gathers the arguments of a level, up to the name of a command, which is returned with the
arguments after it. -/
def gather (scope : Scope) (trailing : Bool) (g : Gathered) :
    List String → Except ArgumentFault (Gathered × Option (Scope × List String))
  | [] => .ok (g, none)
  | arg :: args =>
    if trailing then do gather scope true (← g.plain scope true arg) args
    else
      match g.pending, arg.toList with
      | _, ['-', '-'] => gather scope true g args
      | _, '-' :: '-' :: word => do gather scope false (← g.long scope word) args
      | _, '-' :: c :: letters => do gather scope false (← g.shorts scope (c :: letters)) args
      | .option name none, _ =>
        gather scope false { g with pending := .option name (some arg) } args
      | _, _ =>
        if scope = .program then
          match Scope.ofName? arg with
          | some command => .ok (g, some (command, args))
          | none =>
            if arg = helpName then .error (helpFault args)
            else do gather scope false (← g.plain scope false arg) args
        else do gather scope false (← g.plain scope false arg) args

/-! ## The whole -/

/-- The command that the arguments after its name make up. -/
def Gathered.command (scope : Scope) (g : Gathered) : Except ArgumentFault (Option Command) :=
  let value? (name : OptionName) : Option String := g.options.lookup name
  match scope with
  | .program => .ok none
  | .repair =>
    match value? .code with
    | none => .error .missingArgument
    | some code => .ok (some (.repair code (g.has .live) ((value? .report).map Path.mk)))
  | .count => .ok (some (.count (value? .code)))
  | .scan => .ok (some (.scan (g.paths.map Path.mk) (g.has .fix) (g.has .json)))
  | .rules => .ok (some .rules)

/-- The settings of a level. -/
def Gathered.assignments (g : Gathered) : List String :=
  (g.options.filter (·.1 == .config)).map (·.2)

/-- What the arguments of the program and of its command ask for. -/
def combine (program command : Gathered) (what : Option Command) : Arguments where
  assignments :=
    if command.has .config then command.assignments else program.assignments
  root := ((command.options.lookup .root).or (program.options.lookup .root)).map Path.mk
  verbose := command.has .verbose || program.has .verbose
  printConfigPath := program.has .printConfigPath
  command := what

/-- Reads the arguments, without the program's name. -/
def parse (args : List String) : Except ArgumentFault Arguments := do
  let (program, called) ← gather .program false {} args
  match called with
  | none => return combine (← program.settle) {} none
  | some (scope, rest) =>
    let (given, _) ← gather scope false {} rest
    let given ← given.settle
    let command ← given.command scope
    return combine (← program.settle) given command

/-- What the arguments say about the configuration. -/
def configFlags (args : Arguments) : ConfigFlags where
  assignments := args.assignments
  root := args.root
  live :=
    match args.command with
    | some (.repair _ live _) => live
    | _ => false
  report :=
    match args.command with
    | some (.repair _ _ report) => report
    | _ => none

end Arguments

end SourceRepair
