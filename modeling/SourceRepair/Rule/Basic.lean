import SourceRepair.Diagnostic.Basic
import SourceRepair.Literal.Spans
import SourceRepair.Pattern.Search

/-!
# Rules

A rule pairs a pattern of malformed code with, at best, the fix for one match of it. A repair sees a
rule through a window of one or two lines around a diagnostic, a scan through a whole document; in
both, a match that starts inside a literal or comment does not count. A rule's guard is a condition
on the lines around the window and on the diagnostic.
-/

namespace SourceRepair

/-- The lines that a rule sees: the current one, its neighbours where the file has them, and the
diagnostic that points at it. -/
structure LineContext where
  previous : Option (List Char)
  current : List Char
  next : Option (List Char)
  diagnostic : Option Diagnostic
  deriving Repr, Inhabited

/-- The message of the diagnostic; it is empty without one. -/
def LineContext.message (context : LineContext) : List Char :=
  match context.diagnostic with
  | none => []
  | some d => d.message.toList

/-- How bad a match of a rule is. -/
inductive Severity where
  | error
  | warning
  deriving DecidableEq, Repr, Inhabited

/-- The word for a severity. -/
def Severity.word : Severity → String
  | .error => "error"
  | .warning => "warning"

/-- The lines that a rule's pattern is matched against. -/
inductive Window where
  | line
  /-- The previous line and the current one, with a line feed between them. -/
  | withPrevious
  deriving DecidableEq, Repr, Inhabited

/-- How many lines above the current one a window covers. -/
def Window.linesBefore : Window → Nat
  | .line => 0
  | .withPrevious => 1

/-- The text of a window, unless the file lacks one of its lines. -/
def Window.text? (context : LineContext) : Window → Option (List Char)
  | .line => some context.current
  | .withPrevious => context.previous.map fun previous => previous ++ '\n' :: context.current

/-- What a rule makes of a text. -/
inductive Rewrite where
  /-- The pattern does not match in code, or the guard refuses the window. -/
  | unmatched
  /-- The pattern matches and the rule knows no fix. -/
  | flagged
  /-- The pattern matches and no match has a fix that changes it. -/
  | unchanged
  | changed (text : List Char)
  deriving DecidableEq, Repr, Inhabited

/-- A pattern of malformed code, and what to do about a match of it. -/
structure Rule where
  name : String
  pattern : Pattern
  description : String := ""
  severity : Severity := .error
  window : Window := .line
  guard : Option (LineContext → Bool) := none
  /-- The replacement for one match; a rule without one only points matches out. -/
  fixer : Option (Match → Option (List Char)) := none
  /-- Only the first fix in a window is applied. -/
  firstOnly : Bool := false
  /-- The rule is only trusted where a diagnostic points at the line. -/
  compileOnly : Bool := false

/-- Writes the replacements for some matches, which are given from left to right, into the text
`rest` that follows the match before them. -/
def Match.replaceAll (rest : List Char) : List (Match × List Char) → List Char
  | [] => rest
  | (m, replacement) :: more =>
    rest.take (rest.length - (m.text.length + m.after.length)) ++ replacement
      ++ replaceAll m.after more

namespace Rule

/-- Whether the rule can be used without a diagnostic and without neighbouring lines. -/
def isStatic (rule : Rule) : Bool :=
  rule.guard.isNone && !rule.compileOnly

/-- The fix for one match, if there is one that changes it. -/
def suggest? (rule : Rule) (m : Match) : Option (List Char) :=
  (rule.fixer.bind (· m)).filter (· ≠ m.text)

/-- The matches of the rule's pattern that start in code. -/
def codeMatches (rule : Rule) (text : List Char) : List Match :=
  let spans := literalSpans text
  (rule.pattern.allMatches text).filter fun m => !Span.covers spans m.start

/-- The matches in code that have a fix, each with its replacement, as far as the rule applies
them. -/
def fixes (rule : Rule) (text : List Char) : List (Match × List Char) :=
  let fixes := (rule.codeMatches text).filterMap fun m => (rule.suggest? m).map (m, ·)
  if rule.firstOnly then fixes.take 1 else fixes

/-- Applies the rule to a text without regard to its guard. A match without a fix stays as it is. -/
def rewrite (rule : Rule) (text : List Char) : Rewrite :=
  if (rule.codeMatches text).isEmpty then .unmatched
  else if rule.fixer.isNone then .flagged
  else
    match rule.fixes text with
    | [] => .unchanged
    | fixes => .changed (Match.replaceAll text fixes)

/-- Whether the guard lets the rule see a window; without a guard it always does. -/
def admits (rule : Rule) (context : LineContext) : Bool :=
  rule.guard.all (· context)

/-- Applies the rule to the window around a line, if its guard admits it. -/
def evaluate (rule : Rule) (context : LineContext) : Rewrite :=
  if rule.admits context then
    match rule.window.text? context with
    | none => .unmatched
    | some text => rule.rewrite text
  else .unmatched

end Rule

end SourceRepair
