import SourceRepair.FileTree.Write
import SourceRepair.Text.Utf8

/-!
# The commands of the shell

The few commands that a shell has at hand. Each prints something, may change the files, and ends
with a status, of which zero means success.
-/

namespace SourceRepair.Shell

/-- What a command did. -/
structure Outcome where
  out : ByteArray := .empty
  err : ByteArray := .empty
  status : Nat := 0
  tree : FileTree

namespace Outcome

/-- The same with a complaint of a command and the status of failure. -/
def complain (outcome : Outcome) (command text : String) (status : Nat) : Outcome :=
  { outcome with err := outcome.err ++ (command ++ ": " ++ text ++ "\n").toUTF8, status }

/-- The outcome of a question. -/
def ofBool (tree : FileTree) (answer : Bool) : Outcome where
  status := if answer then 0 else 1
  tree := tree

end Outcome

/-! ## Printing -/

/-- A text with the escapes for line ends, tabs and backslashes replaced by what they stand for. -/
def unescape : List Char → List Char
  | '\\' :: 'n' :: rest => '\n' :: unescape rest
  | '\\' :: 't' :: rest => '\t' :: unescape rest
  | '\\' :: 'r' :: rest => '\r' :: unescape rest
  | '\\' :: '\\' :: rest => '\\' :: unescape rest
  | c :: rest => c :: unescape rest
  | [] => []

/-- Prints its arguments with blanks between them on a line of its own, or without a line end. -/
def echo (tree : FileTree) (args : List String) : Outcome :=
  let (args, ending) :=
    match args with
    | "-n" :: args => (args, [])
    | args => (args, ['\n'])
  let text := unescape (" ".intercalate args).toList ++ ending
  { out := (String.ofList text).toUTF8, tree }

/-- A format with its place holders filled in one after the other. -/
def fill : List Char → List String → List Char
  | '%' :: '%' :: rest, args => '%' :: fill rest args
  | '%' :: 's' :: rest, arg :: args => arg.toList ++ fill rest args
  | '%' :: 'd' :: rest, arg :: args => arg.toList ++ fill rest args
  | '%' :: 's' :: rest, [] => fill rest []
  | '%' :: 'd' :: rest, [] => '0' :: fill rest []
  | c :: rest, args => c :: fill rest args
  | [], _ => []

/-- The number of place holders in a format. -/
def holes : List Char → Nat
  | '%' :: '%' :: rest => holes rest
  | '%' :: 's' :: rest => holes rest + 1
  | '%' :: 'd' :: rest => holes rest + 1
  | _ :: rest => holes rest
  | [] => 0

/-- Fills a format in again and again until no argument is left; `fuel` bounds how often. -/
def fillAll (format : List Char) : Nat → List String → List Char
  | 0, _ => []
  | fuel + 1, args =>
    fill format args ++
      if holes format = 0 ∨ args.length ≤ holes format then []
      else fillAll format fuel (args.drop (holes format))

/-- Prints its arguments as its first one says. -/
def printf (tree : FileTree) : List String → Outcome
  | [] => { tree, status := 2 }
  | format :: args =>
    let text := fillAll (unescape format.toList) (args.length + 1) args
    { out := (String.ofList text).toUTF8, tree }

/-- Prints files one after the other. -/
def cat (tree : FileTree) : List String → Outcome
  | [] => { tree }
  | arg :: args =>
    let rest := cat tree args
    if arg = "-" then rest
    else
      match tree.readBytes ⟨arg⟩ with
      | .ok content => { rest with out := content ++ rest.out }
      | .error cause =>
        { rest with
          err := ("cat: " ++ arg ++ ": " ++ cause.reason ++ "\n").toUTF8 ++ rest.err
          status := 1 }

/-! ## Questions -/

/-- Whether a path leads to something that meets a condition. -/
def leadsTo (tree : FileTree) (path : String) (condition : Entry → Bool) : Bool :=
  match tree.locate true ⟨path⟩ with
  | .ok (_, entry) => condition entry
  | .error _ => false

/-- Whether an entry is a file of a kind. -/
def isFile (condition : ByteArray → Bool) : Entry → Bool
  | .file content _ => condition content
  | _ => false

/-- Whether an entry is a directory. -/
def isDirectory : Entry → Bool
  | .directory => true
  | _ => false

/-- Answers a question about a path or about texts. -/
def test (tree : FileTree) : List String → Bool
  | [] => false
  | [text] => text ≠ ""
  | ["-e", path] => leadsTo tree path fun _ => true
  | ["-f", path] => leadsTo tree path (isFile fun _ => true)
  | ["-s", path] => leadsTo tree path fun entry => isDirectory entry || isFile (0 < ·.size) entry
  | ["-d", path] => leadsTo tree path isDirectory
  | ["-n", text] => text ≠ ""
  | ["-z", text] => text = ""
  | ["!", text] => text = ""
  | [a, "=", b] => a = b
  | [a, "!=", b] => a ≠ b
  | ["!", operator, path] => !test tree [operator, path]
  | _ => false

/-- The lines of a file that hold a text. -/
def linesWith (pattern : List Char) (content : ByteArray) : List (List Char) :=
  let lines := Text.pieces '\n' (Text.ofBytes content.toList)
  let lines := if lines.getLast? = some [] then lines.dropLast else lines
  lines.filter (Text.occurs pattern)

/-- Prints the lines of files that hold a text, or only tells whether there are some. -/
def grep (tree : FileTree) : List String → Outcome
  | "-q" :: pattern :: files =>
    let found := files.any fun file =>
      match tree.readBytes ⟨file⟩ with
      | .ok content => !(linesWith pattern.toList content).isEmpty
      | .error _ => false
    let missing := files.filterMap fun file =>
      match tree.readBytes ⟨file⟩ with
      | .ok _ => none
      | .error cause => some ("grep: " ++ file ++ ": " ++ cause.reason ++ "\n")
    { err := (String.join missing).toUTF8
      status := if found then 0 else if missing.isEmpty then 1 else 2
      tree }
  | [pattern, file] =>
    match tree.readBytes ⟨file⟩ with
    | .ok content =>
      let lines := linesWith pattern.toList content
      { out := (String.ofList (lines.flatMap (· ++ ['\n']))).toUTF8
        status := if lines.isEmpty then 1 else 0
        tree }
    | .error cause =>
      ({ tree } : Outcome).complain "grep" (file ++ ": " ++ cause.reason) 2
  | _ => ({ tree } : Outcome).complain "grep" "unknown usage" 2

/-! ## Changes -/

/-- Makes sure that files exist. -/
def touch (tree : FileTree) : List String → Outcome
  | [] => { tree }
  | arg :: args =>
    if leadsTo tree arg fun _ => true then touch tree args
    else
      match tree.writeBytes ⟨arg⟩ .empty with
      | .ok tree => touch tree args
      | .error cause =>
        (touch tree args).complain "touch" ("cannot touch '" ++ arg ++ "': " ++ cause.reason) 1

/-- Removes files; missing ones are passed over with `-f`. -/
def rm (force : Bool) (tree : FileTree) : List String → Outcome
  | [] => { tree }
  | "-f" :: args => rm true tree args
  | arg :: args =>
    match tree.locate false ⟨arg⟩ with
    | .ok (_, .directory) =>
      (rm force tree args).complain "rm" ("cannot remove '" ++ arg ++ "': Is a directory") 1
    | .ok (place, _) => rm force (tree.remove place) args
    | .error cause =>
      let outcome := rm force tree args
      if force then outcome
      else outcome.complain "rm" ("cannot remove '" ++ arg ++ "': " ++ cause.reason) 1

/-! ## All commands -/

/-- Runs a command, if it is at hand. -/
def command? (tree : FileTree) (name : String) (args : List String) : Option Outcome :=
  match name with
  | "true" | ":" => some { tree }
  | "false" => some { tree, status := 1 }
  | "echo" => some (echo tree args)
  | "printf" => some (printf tree args)
  | "cat" => some (cat tree args)
  | "pwd" => some (echo tree [(FileTree.pathOf tree.home).spelling])
  | "test" => some (.ofBool tree (test tree args))
  | "[" =>
    if args.getLast? = some "]" then some (.ofBool tree (test tree args.dropLast))
    else some (({ tree } : Outcome).complain "[" "missing ]" 2)
  | "grep" => some (grep tree args)
  | "touch" => some (touch tree args)
  | "rm" => some (rm false tree args)
  | _ => none

end SourceRepair.Shell
