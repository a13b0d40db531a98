import SourceRepair.Rule.Catalog

/-!
# Rules for plain text

A rule can be described by data alone: a text to look for, one of a few conditions on the window,
and one of a few ways to replace a match. Catalogs built from such descriptions need no patterns of
their own.
-/

namespace SourceRepair

/-- A condition on the window around a line. -/
inductive PlainGuard where
  | hasPrevious
  | hasNext
  | hasMessage
  | never
  deriving DecidableEq, Repr

/-- Whether the condition holds. -/
def PlainGuard.holds (context : LineContext) : PlainGuard → Bool
  | .hasPrevious => context.previous.isSome
  | .hasNext => context.next.isSome
  | .hasMessage => !context.message.isEmpty
  | .never => false

/-- A way to replace the matched text. -/
inductive PlainFixer where
  /-- There is no replacement. -/
  | fail
  | identity
  | drop
  /-- The text twice. -/
  | double
  /-- The text in square brackets. -/
  | bracket
  /-- The text and a line feed. -/
  | newline
  deriving DecidableEq, Repr

/-- The replacement for a match. -/
def PlainFixer.replace? (m : Match) : PlainFixer → Option (List Char)
  | .fail => none
  | .identity => some m.text
  | .drop => some []
  | .double => some (m.text ++ m.text)
  | .bracket => some ('[' :: m.text ++ [']'])
  | .newline => some (m.text ++ ['\n'])

/-- The description of a rule for plain text; without a code it is universal. -/
structure PlainRule where
  name : String
  text : String
  code : Option String := none
  description : String := ""
  severity : Severity := .error
  window : Window := .line
  guard : Option PlainGuard := none
  fixer : Option PlainFixer := none
  firstOnly : Bool := false
  compileOnly : Bool := false

/-- The rule described. -/
def PlainRule.toRule (rule : PlainRule) : Rule where
  name := rule.name
  pattern := Pattern.lit rule.text
  description := rule.description
  severity := rule.severity
  window := rule.window
  guard := rule.guard.map fun guard context => guard.holds context
  fixer := rule.fixer.map fun fixer m => fixer.replace? m
  firstOnly := rule.firstOnly
  compileOnly := rule.compileOnly

/-- The catalog of the rules described, registered in order. -/
def Catalog.ofPlainRules (rules : List PlainRule) : Catalog :=
  rules.foldl (fun catalog rule =>
    match rule.code with
    | none => catalog.insertUniversal rule.toRule
    | some code => catalog.insert code rule.toRule) Catalog.empty

end SourceRepair
