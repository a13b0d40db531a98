import SourceRepair.Text.Basic

/-!
# Words and operators of shell scripts

A script is a sequence of simple commands with operators between them. Single quotes keep
everything, double quotes keep all but backslashes and the working directory's variable, and a
backslash keeps the next character. A digit directly before a redirection says which output it is
about.
-/

namespace SourceRepair.Shell

/-- An output of a command. -/
inductive Stream where
  | out
  | err
  deriving DecidableEq, Repr, Inhabited

/-- Where a redirected output goes. -/
inductive Destination where
  /-- To the file whose path is the next word. -/
  | file (append : Bool)
  /-- To where another output goes. -/
  | copy (stream : Stream)
  deriving DecidableEq, Repr, Inhabited

/-- A word or an operator of a script. -/
inductive Token where
  | word (text : List Char)
  /-- `;` or the end of a line. -/
  | next
  | andThen
  | orElse
  | redirect (stream : Stream) (destination : Destination)
  deriving DecidableEq, Repr, Inhabited

/-- How the character at hand is quoted. -/
inductive Quotation where
  | none
  | single
  | double
  deriving DecidableEq, Repr

/-- A word so far, last character first, and whether part of it was quoted; there may be none. -/
abbrev Partial := Option (List Char × Bool)

namespace Partial

/-- Adds a character. -/
def add (c : Char) (quoted : Bool) : Partial → Partial
  | none => some ([c], quoted)
  | some (text, before) => some (c :: text, before || quoted)

/-- Opens a quotation. -/
def quote : Partial → Partial
  | none => some ([], true)
  | some (text, _) => some (text, true)

/-- Adds a text. -/
def addAll (text : List Char) (word : Partial) : Partial :=
  text.foldl (fun word c => add c true word) word.quote

/-- The word in front of what follows. -/
def close (word : Partial) (tokens : List Token) : List Token :=
  match word with
  | none => tokens
  | some (text, _) => .word text.reverse :: tokens

/-- The output that a redirection is about, and the word before it if it is none of it. -/
def stream : Partial → Stream × Partial
  | some (['1'], false) => (.out, none)
  | some (['2'], false) => (.err, none)
  | word => (.out, word)

end Partial

/-- The name of the variable that holds the working directory. -/
def directoryVariable : List Char := "$PWD".toList

/-- The tokens of a script that is run in a directory; there are none if a quotation does not end.
`word` is the word so far. -/
def tokens (directory : List Char) (quotation : Quotation) (word : Partial) (script : List Char) :
    Option (List Token) :=
  match quotation, script with
  | .none, [] => some (word.close [])
  | _, [] => none
  | .single, c :: rest =>
    if c = '\'' then tokens directory .none word rest
    else tokens directory .single (word.add c true) rest
  | .double, '\\' :: c :: rest =>
    if c = '"' ∨ c = '\\' ∨ c = '$' ∨ c = '\x60' then
      tokens directory .double (word.add c true) rest
    else if c = '\n' then tokens directory .double word rest
    else tokens directory .double ((word.add '\\' true).add c true) rest
  | .double, c :: rest =>
    if c = '"' then tokens directory .none word rest
    else if directoryVariable.isPrefixOf (c :: rest) then
      tokens directory .double (word.addAll directory) (rest.drop 3)
    else tokens directory .double (word.add c true) rest
  | .none, '\\' :: c :: rest =>
    if c = '\n' then tokens directory .none word rest
    else tokens directory .none (word.add c true) rest
  | .none, '&' :: '&' :: rest =>
    (tokens directory .none none rest).map fun more => word.close (.andThen :: more)
  | .none, '|' :: '|' :: rest =>
    (tokens directory .none none rest).map fun more => word.close (.orElse :: more)
  | .none, '>' :: '&' :: '1' :: rest =>
    (tokens directory .none none rest).map fun more =>
      word.stream.2.close (.redirect word.stream.1 (.copy .out) :: more)
  | .none, '>' :: '&' :: '2' :: rest =>
    (tokens directory .none none rest).map fun more =>
      word.stream.2.close (.redirect word.stream.1 (.copy .err) :: more)
  | .none, '>' :: '>' :: rest =>
    (tokens directory .none none rest).map fun more =>
      word.stream.2.close (.redirect word.stream.1 (.file true) :: more)
  | .none, '>' :: rest =>
    (tokens directory .none none rest).map fun more =>
      word.stream.2.close (.redirect word.stream.1 (.file false) :: more)
  | .none, c :: rest =>
    if c = ' ' ∨ c = '\t' then (tokens directory .none none rest).map word.close
    else if c = ';' ∨ c = '\n' then
      (tokens directory .none none rest).map fun more => word.close (.next :: more)
    else if c = '\'' then tokens directory .single word.quote rest
    else if c = '"' then tokens directory .double word.quote rest
    else if c = '#' ∧ word = none then
      tokens directory .none none (rest.dropWhile (· != '\n'))
    else if directoryVariable.isPrefixOf (c :: rest) then
      tokens directory .none (word.addAll directory) (rest.drop 3)
    else tokens directory .none (word.add c false) rest
termination_by script.length
decreasing_by
  all_goals simp only [List.length_cons, List.length_drop]
  all_goals first
    | omega
    | exact Nat.lt_succ_of_le (List.dropWhile_suffix _).length_le

end SourceRepair.Shell
