import SourceRepair.Compiler.Extractor
import SourceRepair.Shell.Command
import SourceRepair.Shell.Token

/-!
# Scripts

A script is run command by command. `&&` runs the next command after a success and `||` after a
failure; a redirection sends an output to the other one or to a file. As a launcher, the shell
starts its own commands, itself with a script, and files that may be run and hold one.
-/

namespace SourceRepair.Shell

/-! ## Simple commands -/

/-- When a command is run. -/
inductive Condition where
  | always
  | afterSuccess
  | afterFailure
  deriving DecidableEq, Repr, Inhabited

/-- Where an output goes in the end. -/
inductive Target where
  | stream (stream : Stream)
  | file (path : String) (append : Bool)
  deriving DecidableEq, Repr, Inhabited

/-- The targets of the two outputs. -/
structure Routing where
  out : Target := .stream .out
  err : Target := .stream .err
  deriving DecidableEq, Repr, Inhabited

namespace Routing

/-- Where an output goes. -/
def target (routing : Routing) : Stream → Target
  | .out => routing.out
  | .err => routing.err

/-- Sends an output somewhere else. -/
def send (routing : Routing) (stream : Stream) (target : Target) : Routing :=
  match stream with
  | .out => { routing with out := target }
  | .err => { routing with err := target }

end Routing

/-- A simple command: when it is run, its words and where its outputs go. -/
structure Simple where
  condition : Condition
  words : List String
  routing : Routing
  deriving Repr, Inhabited

/-- The simple commands of a script, the first one given so far; there are none if an operator lacks
an operand. -/
def simples (current : Simple) : List Token → Option (List Simple)
  | [] => some [current]
  | .word text :: tokens =>
    simples { current with words := current.words ++ [String.ofList text] } tokens
  | .redirect stream (.copy source) :: tokens =>
    simples { current with
      routing := current.routing.send stream (current.routing.target source) } tokens
  | .redirect stream (.file append) :: .word path :: tokens =>
    simples { current with
      routing := current.routing.send stream (.file (String.ofList path) append) } tokens
  | .redirect _ (.file _) :: _ => none
  | .next :: tokens =>
    if current.words = [] ∧ current.condition ≠ .always then none
    else (simples ⟨.always, [], {}⟩ tokens).map (current :: ·)
  | .andThen :: tokens =>
    if current.words = [] then none
    else (simples ⟨.afterSuccess, [], {}⟩ tokens).map (current :: ·)
  | .orElse :: tokens =>
    if current.words = [] then none
    else (simples ⟨.afterFailure, [], {}⟩ tokens).map (current :: ·)

/-! ## Running -/

/-- Adds bytes to a file, or replaces its content by them. -/
def store (tree : FileTree) (path : String) (append : Bool) (content : ByteArray) :
    Except IoCause FileTree :=
  let before := if append then (tree.readBytes ⟨path⟩).toOption.getD .empty else .empty
  tree.writeBytes ⟨path⟩ (before ++ content)

/-- Adds an output of a command to its target. -/
def route (outcome : Outcome) (content : ByteArray) : Target → Outcome
  | .stream .out => { outcome with out := outcome.out ++ content }
  | .stream .err => { outcome with err := outcome.err ++ content }
  | .file path append =>
    match store outcome.tree path append content with
    | .ok tree => { outcome with tree }
    | .error cause =>
      { outcome.complain "sh" ("cannot create " ++ path ++ ": " ++ cause.reason) 2 with
        tree := outcome.tree }

/-- Runs a simple command after what has been done before. -/
def runSimple (before : Outcome) (simple : Simple) : Outcome :=
  match simple.words with
  | [] => before
  | name :: args =>
    let outcome :=
      match command? before.tree name args with
      | some outcome => outcome
      | none =>
        ({ tree := before.tree } : Outcome).complain "sh" ("1: " ++ name ++ ": not found") 127
    let after := { before with tree := outcome.tree, status := outcome.status }
    route (route after outcome.out simple.routing.out) outcome.err simple.routing.err

/-- Whether a command is run after a status. -/
def Condition.holds (status : Nat) : Condition → Bool
  | .always => true
  | .afterSuccess => status = 0
  | .afterFailure => status ≠ 0

/-- Runs commands one after the other up to the one that ends the script. -/
def runAll (before : Outcome) : List Simple → Outcome
  | [] => before
  | simple :: more =>
    if !simple.condition.holds before.status then runAll before more
    else
      match simple.words with
      | "exit" :: args =>
        { before with status := ((args.head?.bind String.toNat?).getD before.status) % 256 }
      | _ => runAll (runSimple before simple) more

/-- Runs a script in the tree's working directory. -/
def runScript (tree : FileTree) (script : String) : Outcome :=
  let directory := (FileTree.pathOf tree.home).spelling.toList
  match (tokens directory .none none script.toList).bind (simples ⟨.always, [], {}⟩) with
  | none => ({ tree } : Outcome).complain "sh" "1: Syntax error" 2
  | some commands => runAll { tree } commands

/-! ## As a launcher -/

/-- The name of a program in one of the usual directories. -/
def programName (program : String) : String :=
  match (Text.pieces '/' program.toList).map String.ofList with
  | ["", "bin", name] => name
  | ["", "usr", "bin", name] => name
  | _ => program

/-- Whether the owner of a file may run it. -/
def mayRun (mode : Mode) : Bool :=
  mode / 64 % 2 == 1

/-- Runs a file as a program: one that starts with `#!` is taken for a script of the shell. -/
def runFile (tree : FileTree) (content : ByteArray) (mode : Mode) : Except IoCause Outcome :=
  let text := Text.ofBytes content.toList
  if !mayRun mode then .error .permissionDenied
  else if text.take 2 ≠ ['#', '!'] then .error .notRunnable
  else .ok (runScript tree (String.ofList text))

/-- Runs a program that is named without a directory. The names of directories are found, too. -/
def runNamed (tree : FileTree) (name : String) (args : List String) : Except IoCause Outcome :=
  if name = "." ∨ name = ".." then .error .permissionDenied
  else if FileTree.nameLimit < name.utf8ByteSize then .error .nameTooLong
  else
    match if name = ":" then none else command? tree name args with
    | some outcome => .ok outcome
    | none => .error .noEntry

/-- The outcome of a program, or why it does not start. -/
def outcome? (program : String) (args : List String) (tree : FileTree) :
    Except IoCause Outcome :=
  match programName program, args with
  | "sh", "-c" :: script :: _ => .ok (runScript tree script)
  | "sh", file :: _ =>
    match tree.readText ⟨file⟩ with
    | .ok script => .ok (runScript tree script)
    | .error _ => .ok (({ tree } : Outcome).complain "sh" ("0: cannot open " ++ file) 2)
  | "sh", [] => .ok { tree }
  | name, args =>
    if name.toList.contains '/' then
      match tree.locate true ⟨name⟩ with
      | .error cause => .error cause
      | .ok (_, .file content mode) => runFile tree content mode
      | .ok (_, _) => .error .permissionDenied
    else runNamed tree name args

/-- The shell as a launcher. No program is handed a word that holds a NUL. -/
def launcher : Launcher where
  launch program args tree :=
    if (program :: args).any (·.toList.contains '\x00') then (.error .nulInArgument, tree)
    else
      match outcome? program args tree with
      | .ok outcome => (.ok ⟨outcome.out, outcome.err⟩, outcome.tree)
      | .error cause => (.error cause, tree)

end SourceRepair.Shell
