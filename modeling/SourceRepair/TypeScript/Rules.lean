import SourceRepair.Rule.Catalog
import SourceRepair.TypeScript.Line

/-!
# The TypeScript rules

The rules for the syntax errors of the TypeScript compiler, by its codes, and for some rules of
typescript-eslint. A rule is narrow on purpose: it fires only where the line and its neighbours show
one malformed pattern with one possible repair.
-/

namespace SourceRepair.TypeScript

open Pattern CharClass

/-! ## Fixers -/

/-- Ends the statement `body` with a semicolon, unless it is visibly unfinished or hard to read. -/
def terminate (m : Match) : Option (List Char) :=
  let body := Text.trimEnd (m.group "body")
  match body.getLast? with
  | none => none
  | some last =>
    if openEndings.contains last || mentionsComment body || !bracketsBalanced body then none
    else some (body ++ [';'])

/-- Puts a colon between a key and its value. -/
def insertColon (m : Match) : Option (List Char) :=
  let key := m.group "key"
  if nonPropertyWords.any (·.toList == key) then none
  else some (m.group "indent" ++ key ++ [':', ' '] ++ m.group "value")

/-- Ends a member with a comma, unless it is hard to read. -/
def closeMember (member : List Char) : Option (List Char) :=
  if mentionsComment member || !bracketsBalanced member then none
  else some (member ++ [','])

/-- Ends the member above with a comma. -/
def separateMembers (m : Match) : Option (List Char) :=
  let above := m.group "prev"
  let closed :=
    if Text.trimStart above = ['}'] then some (above ++ [',']) else closeMember above
  closed.map (· ++ '\n' :: m.group "member")

/-- Puts straight quotes of the same kind around the text between curly ones. -/
def straightenQuotes (m : Match) : Option (List Char) :=
  match m.group? "single", m.group? "double" with
  | some single, _ => some ('\'' :: single ++ ['\''])
  | none, some double => some ('"' :: double ++ ['"'])
  | none, none => none

/-! ## Rules for every code -/

/-- Commas in a row, apart from blanks, become one. -/
def duplicateComma : Rule where
  name := "duplicate-comma"
  pattern := sequence [lit ",", oneOrMore (sequence [blanks, lit ","])]
  description := "Runs of commas collapse to one"
  fixer := some fun _ => some [',']

/-- Semicolons in a row at the end of a line become one. -/
def duplicateSemicolon : Rule where
  name := "duplicate-semicolon"
  pattern := sequence [lit ";", oneOrMore (sequence [blanks, lit ";"]), blanks, lineEnd]
  description := "Repeated statement terminators collapse to one"
  fixer := some fun _ => some [';']

/-! ## `TS1005`: a token was expected -/

/-- One of the words that declare variables. -/
def declarationWord : Pattern :=
  choice [lit "const", lit "let", lit "var"]

/-- A declaration or a jump gets the semicolon it lacks. -/
def missingTerminator : Rule where
  name := "missing-terminator"
  pattern := sequence [
    lineStart,
    group "body" (sequence [
      blanks,
      choice [
        sequence [
          optional (sequence [lit "export", gap]), declarationWord, gap, visible, many inLine],
        sequence [lit "return", wordBoundary, many inLine],
        sequence [lit "break", wordBoundary, many inLine],
        sequence [lit "continue", wordBoundary, many inLine],
        sequence [lit "throw", gap, many inLine]]]),
    lineEnd]
  description := "Declaration, return, break or continue without a terminating \x60;\x60"
  guard := some expectsSemicolon
  fixer := some terminate

/-- An assignment or a change of a member gets the semicolon it lacks. -/
def missingAssignmentTerminator : Rule where
  name := "missing-assignment-terminator"
  pattern := sequence [
    lineStart, group "body" (sequence [blanks, visible, many inLine]), lineEnd]
  description := "Assignment or property mutation without a terminating \x60;\x60"
  guard := some assignmentMissesSemicolon
  fixer := some terminate

/-- Ends the statement in the group `name` with a semicolon. -/
def semicolonAfter (name : String) (m : Match) : Option (List Char) :=
  some (m.group name ++ [';'])

/-- An import ends with a semicolon in place of a comma. -/
def importTrailingComma : Rule where
  name := "import-trailing-comma"
  pattern := sequence [
    group "head" (sequence [lit "\x7d", blanks, lit "from", blanks, quotedKey]),
    blanks, lit ",", blanks, lineEnd]
  description := "Import statement terminated with \x60,\x60"
  fixer := some (semicolonAfter "head")

/-- An export list ends with a semicolon in place of a comma. -/
def exportListTrailingComma : Rule where
  name := "export-list-trailing-comma"
  pattern := sequence [
    lineStart,
    group "head" (sequence [
      blanks, lit "export", blanks, lit "\x7b", many (noneOf "\x7d\n"), lit "\x7d"]),
    blanks, lit ",", blanks, lineEnd]
  description := "Export list terminated with \x60,\x60"
  fixer := some (semicolonAfter "head")

/-- A statement ends with a semicolon in place of a comma. -/
def commaAsTerminator : Rule where
  name := "comma-as-terminator"
  pattern := sequence [lit ",", blanks, lineEnd]
  description := "Statement ends in \x60,\x60 where \x60;\x60 was intended"
  guard := some terminatesStatement
  fixer := some fun _ => some [';']

/-- A key and a literal value get the colon between them. -/
def missingPropertyColon : Rule where
  name := "missing-property-colon"
  pattern := sequence [
    lineStart,
    group "indent" blanks,
    group "key" (alt
      (sequence [one fun c => isAsciiLetter c || c == '_' || c == '$', many nameChar])
      quotedKey),
    gap,
    group "value" (choice [
      one fun c => isDigit c || "'\"\x60[\x7b-".toList.contains c,
      sequence [lit "true", wordBoundary],
      sequence [lit "false", wordBoundary],
      sequence [lit "null", wordBoundary],
      sequence [lit "undefined", wordBoundary]])]
  description := "Property name followed by its value without a \x60:\x60"
  guard := some expectsColon
  fixer := some insertColon

/-- A character that a property's value can start or end with. -/
def valueEdge : Pattern :=
  one fun c => !isWhite c && !",\x7b\x7d".toList.contains c

/-- A property with its value on one line, without a comma after it. -/
def openProperty : Pattern :=
  sequence [
    oneOrMore nameChar, blanks, lit ":", blanks, valueEdge,
    optional (sequence [many inLine, valueEdge])]

/-- The member above the reported one gets the comma it lacks. -/
def commaBeforeMember : Rule where
  name := "comma-before-member"
  pattern := sequence [
    lineStart,
    group "prev" (sequence [blanks, alt (lit "\x7d") openProperty]),
    blanks, lit "\n",
    group "member" (sequence [blanks, memberStart, many inLine]),
    lineEnd]
  description := "Object member reported where the member above it lacks its \x60,\x60"
  window := .withPrevious
  guard := some memberMissesComma
  fixer := some separateMembers

/-- A property gets the comma it lacks before the next member. -/
def missingPropertyComma : Rule where
  name := "missing-property-comma"
  pattern := sequence [
    lineStart, group "prop" (sequence [blanks, openProperty]), blanks, lineEnd]
  description := "Object property followed by another member without a \x60,\x60"
  guard := some memberFollows
  fixer := some fun m => closeMember (m.group "prop")

/-- A closing brace gets the comma it lacks before the next member. -/
def missingMemberComma : Rule where
  name := "missing-member-comma"
  pattern := sequence [
    lineStart, group "brace" (sequence [blanks, lit "\x7d"]), blanks, lineEnd]
  description := "Nested object or method closed with \x60\x7d\x60 where \x60\x7d,\x60 was needed"
  guard := some memberFollows
  fixer := some fun m => some (m.group "brace" ++ [','])

/-! ## `TS1003`: an identifier was expected -/

/-- An access that breaks off at the end of a line is cut off. -/
def danglingMemberAccess : Rule where
  name := "dangling-member-access"
  pattern := sequence [
    group "target" (one fun c => isWord c || "$)]".toList.contains c),
    blanks, choice [lit "?.", lit ".", lit "["], blanks, lineEnd]
  description := "Member or index access left incomplete at the end of a line"
  guard := some memberAccessEndsHere
  fixer := some fun m => some (m.group "target")

/-! ## `TS1128`: a declaration or statement was expected -/

/-- A closing brace with or without a comma, up to the end of its line. -/
def closingBrace : Pattern :=
  sequence [blanks, lit "\x7d", optional (lit ","), blanks, lineEnd]

/-- A brace on the line after a `return` is removed, and the `return` gets its semicolon. -/
def orphanedBraceAfterReturn : Rule where
  name := "orphaned-brace-after-return"
  pattern := sequence [
    lineStart,
    group "stmt" (sequence [
      blanks, lit "return", wordBoundary, many (noneOf "\n;"),
      one fun c => !isWhite c && !"\n;\x7b,".toList.contains c]),
    blanks, lit "\n", closingBrace]
  description := "Closing brace left behind after the code following a return was deleted"
  window := .withPrevious
  compileOnly := true
  fixer := some (semicolonAfter "stmt")

/-- A brace that closes nothing is removed; its line stays, without text. -/
def orphanedBrace : Rule where
  name := "orphaned-brace"
  pattern := sequence [lineStart, closingBrace]
  description := "Closing brace directly after a line that already closed its block"
  guard := some followsClosedBlock
  fixer := some fun _ => some []

/-! ## `TS1109` and `TS1136`: an expression or a property was expected -/

/-- A loop variable without a value starts at zero. -/
def emptyForInitializer : Rule where
  name := "empty-for-initializer"
  pattern := sequence [
    lit "for", blanks, lit "(", blanks, group "kw" (alt (lit "let") (lit "var")), gap,
    group "name" (oneOrMore nameChar), blanks, lit "=", blanks, lit ";"]
  description := "\x60for\x60 loop variable initialised with nothing"
  fixer := some fun m =>
    some ("for (".toList ++ m.group "kw" ++ [' '] ++ m.group "name" ++ " = 0;".toList)

/-- A comma right after an opening brace is removed. -/
def braceLeadingComma : Rule where
  name := "brace-leading-comma"
  pattern := sequence [lit "\x7b", blanks, lit ",", group "gap" blanks]
  description := "Object literal or pattern opening with a stray comma"
  fixer := some fun m => some (if m.group "gap" = [] then ['{'] else ['{', ' '])

/-! ## `TS1127` and `TS1002`: an invalid character, an open string -/

/-- A curly single quote, of either direction. -/
def curlySingle : Pattern := oneOf "\u2018\u2019"

/-- A curly double quote, of either direction. -/
def curlyDouble : Pattern := oneOf "\u201C\u201D"

/-- Curly quotes around a text become straight ones. -/
def smartQuotes : Rule where
  name := "smart-quotes"
  pattern := alt
    (sequence [curlySingle, group "single" (many (noneOf "\u2018\u2019'\n")), curlySingle])
    (sequence [curlyDouble, group "double" (many (noneOf "\u201C\u201D\"\n")), curlyDouble])
  description := "Curly quotes used as string delimiters"
  severity := .warning
  fixer := some straightenQuotes

/-- A line with an odd number of the given quote. -/
def oddQuotes (quote : Char) : Pattern :=
  let body := many (one fun c => c != quote && c != '\n')
  let mark := one (· == quote)
  sequence [many (sequence [body, mark, body, mark]), body, mark, body]

/-- A string without its closing quote is pointed out. -/
def unterminatedString : Rule where
  name := "unterminated-string"
  pattern := sequence [lineStart, alt (oddQuotes '\'') (oddQuotes '"'), lineEnd]
  description := "String literal without a closing quote; needs a human"
  compileOnly := true

/-! ## Linter rules -/

/-- A destructuring that binds nothing becomes its right-hand side. -/
def emptyDestructuring : Rule where
  name := "empty-destructuring"
  pattern := sequence [
    lineStart, group "indent" blanks, declarationWord, blanks,
    alt (sequence [lit "\x7b", blanks, lit "\x7d"]) (sequence [lit "[", blanks, lit "]"]),
    blanks, lit "=", blanks, group "expr" (sequence [visible, many inLine]), lineEnd]
  description := "Destructuring that binds nothing; keep the expression for its effects"
  severity := .warning
  fixer := some fun m => some (m.group "indent" ++ m.group "expr")

/-- The `await` that the linter points at is removed, if it is the first one in code. -/
def awaitNonPromise : Rule where
  name := "await-non-promise"
  pattern := awaitWord
  description := "\x60await\x60 on a value that is not a promise"
  guard := some flagsFirstAwait
  firstOnly := true
  compileOnly := true
  fixer := some fun _ => some []

/-- A promise that nobody waits for is marked with `void`. -/
def voidFloatingPromise : Rule where
  name := "void-floating-promise"
  pattern := sequence [
    lineStart, group "indent" blanks, group "stmt" (sequence [visible, many inLine]), lineEnd]
  description := "Promise-valued statement whose result is dropped"
  guard := some lacksVoid
  fixer := some fun m => some (m.group "indent" ++ "void ".toList ++ m.group "stmt")

/-- An asynchronous function is handed to a timer inside a plain one. -/
def timerAsyncCallback : Rule where
  name := "timer-async-callback"
  pattern := sequence [
    wordBoundary, group "timer" (alt (lit "setInterval") (lit "setTimeout")), lit "(",
    group "callback" (oneOrMore (one fun c => isWord c || c == '$' || c == '.')), lit ","]
  description := "Async function handed directly to a timer"
  compileOnly := true
  fixer := some fun m =>
    some (m.group "timer" ++ "(() => void ".toList ++ m.group "callback" ++ "(),".toList)

/-! ## The catalog -/

/-- The rules for one code, in the order they are tried. -/
def rulesByCode : List (String × List Rule) := [
  ("TS1005", [missingTerminator, missingAssignmentTerminator, importTrailingComma,
    exportListTrailingComma, commaAsTerminator, missingPropertyColon, commaBeforeMember,
    missingPropertyComma, missingMemberComma]),
  ("TS1003", [danglingMemberAccess]),
  ("TS1128", [orphanedBraceAfterReturn, orphanedBrace]),
  ("TS1109", [emptyForInitializer, braceLeadingComma]),
  ("TS1136", [braceLeadingComma]),
  ("TS1127", [smartQuotes]),
  ("TS1002", [unterminatedString]),
  ("no-empty-pattern", [emptyDestructuring]),
  ("@typescript-eslint/await-thenable", [awaitNonPromise]),
  ("@typescript-eslint/no-floating-promises", [voidFloatingPromise]),
  ("@typescript-eslint/no-misused-promises", [timerAsyncCallback])]

/-- The catalog of all TypeScript rules. -/
def catalog : Catalog where
  universal := [duplicateComma, duplicateSemicolon]
  registered := rulesByCode.flatMap fun (code, rules) => rules.map (code, ·)

end SourceRepair.TypeScript
