import SourceRepair.Diagnostic.Basic
import SourceRepair.Text.Digits
import SourceRepair.Text.Line

/-!
# Diagnostics in a compiler's text output

A line of the form `path(line,column): error CODE: message` reports one diagnostic; all other lines
are skipped. White space at the end of a line does not count. The path ends at the first place where
the rest of the line can be read, so it may itself contain parentheses. The two positions are
written in decimal digits of any script, but only ASCII digits below 2^64 make a position.
-/

namespace SourceRepair.Diagnostic

/-- Counts of lines, columns and diagnostics are 64-bit words. -/
def wordLimit : Nat := Nat.pow 2 64

/-- What stands after the path of a diagnostic line. -/
structure Tail where
  line : List Char
  column : List Char
  code : List Char
  message : List Char
  deriving DecidableEq, Repr

/-- Removes `part` from the front of `text`, if it stands there. -/
def dropLiteral? (part text : List Char) : Option (List Char) :=
  if part.isPrefixOf text then some (text.drop part.length) else none

/-- Splits off the digits at the front, of which there has to be one. -/
def takeDigits? (text : List Char) : Option (List Char × List Char) :=
  match text.takeWhile CharClass.isDigit with
  | [] => none
  | digits => some (digits, text.dropWhile CharClass.isDigit)

/-- Splits `CODE: message`: the code is a run without white space, up to the colon at its end. -/
def takeCode? (text : List Char) : Option (List Char × List Char) :=
  let run := text.takeWhile (!CharClass.isWhite ·)
  match run.getLast?, run.dropLast, text.dropWhile (!CharClass.isWhite ·) with
  | some ':', c :: code, ' ' :: message => some (c :: code, message)
  | _, _, _ => none

/-- Reads `(line,column): error CODE: message`. -/
def Tail.ofText? (text : List Char) : Option Tail := do
  let text ← dropLiteral? ['('] text
  let (line, text) ← takeDigits? text
  let text ← dropLiteral? [','] text
  let (column, text) ← takeDigits? text
  let text ← dropLiteral? "): error ".toList text
  let (code, message) ← takeCode? text
  return ⟨line, column, code, message⟩

/-- Splits a line after the shortest path, of at least one character, that a tail follows; `path` is
what has been passed already, nearest character first. -/
def splitPath? (path : List Char) : List Char → Option (List Char × Tail)
  | [] => none
  | c :: rest =>
    match Tail.ofText? rest with
    | some tail => some ((c :: path).reverse, tail)
    | none => splitPath? (c :: path) rest

/-- The number written in ASCII digits, if it is below 2^64. -/
def position? (digits : List Char) : Option Nat :=
  if digits.all Text.isDecimal then
    let value := Text.digitsValue 10 digits
    if value < wordLimit then some value else none
  else none

/-- The diagnostic that a line reports, its path seen from `root`. -/
def ofLine? (root : Path) (line : List Char) : Option Diagnostic := do
  let (path, tail) ← splitPath? [] (Text.trimEnd line)
  let lineNumber ← position? tail.line
  let column ← position? tail.column
  return {
    file := root.resolve ⟨String.ofList path⟩
    line := lineNumber
    column := column
    code := String.ofList tail.code
    message := String.ofList tail.message }

/-- The diagnostics that a compiler's output reports, line by line. -/
def ofCompilerText (root : Path) (text : String) : List Diagnostic :=
  (Line.ofText text.toList).filterMap fun line => ofLine? root line.text

end SourceRepair.Diagnostic
