import SourceRepair.Rule.Basic

/-!
# What a line of TypeScript looks like

Tests on single lines and on the window around a diagnostic: which keyword a line starts with,
whether it assigns, whether it opens or continues something. They are deliberately simple and look
at the characters of the line only.
-/

namespace SourceRepair.TypeScript

open Pattern CharClass

/-- A quoted property name. -/
def quotedKey : Pattern :=
  alt (sequence [lit "'", many (noneOf "'\n"), lit "'"])
    (sequence [lit "\"", many (noneOf "\"\n"), lit "\""])

/-- The name of an object member, bare or quoted. -/
def memberKey : Pattern :=
  alt (oneOrMore nameChar) quotedKey

/-- The start of an object member: a key with its colon, or a spread. -/
def memberStart : Pattern :=
  alt (lit "...") (sequence [memberKey, blanks, lit ":"])

/-- A line that starts an object member. -/
def memberLine : Pattern :=
  sequence [textStart, blanks, memberStart]

/-- A plain or compound assignment at the start of a line. -/
def assignment : Pattern :=
  sequence [
    textStart,
    oneOrMore (one fun c => isWord c || "$.[]'\"".toList.contains c),
    blanks,
    optional (choice [lit "**", lit "??", lit "||", lit "&&", oneOf "-+*/%"]),
    lit "=",
    noneOf "=>"]

/-- A line that goes on with the next name of a declaration. -/
def declarator : Pattern :=
  sequence [
    textStart, blanks, oneOrMore nameChar, blanks,
    choice [sequence [lit "=", noneOf "="], lit ",", lit ";", textEnd]]

/-- The word `await` and the blanks after it. -/
def awaitWord : Pattern :=
  sequence [wordBoundary, lit "await", gap]

/-- Words that a statement starts with. -/
def statementKeywords : List String :=
  ["return", "throw", "break", "continue", "const", "let", "var", "import"]

/-- Words that a declaration starts with. -/
def declarationKeywords : List String :=
  ["const", "let", "var"]

/-- Words that a value can follow without a colon in between. -/
def nonPropertyWords : List String :=
  ["await", "case", "const", "delete", "else", "export", "import", "in", "let", "new", "of",
    "return", "throw", "typeof", "var", "void", "yield"]

/-- Last characters after which a statement is not finished. -/
def openEndings : List Char :=
  ";,\x7b([=+-*/%&|?:.<>!\\".toList

/-- First characters of a line that goes on with the expression above it. -/
def continuations : List Char :=
  ".?:+-*/%&|)],=>".toList

/-- Whether the text starts with a character that identifiers are made of. -/
def startsIdentifier (text : List Char) : Bool :=
  text.head?.any continuesIdentifier

/-- Whether the text starts with one of the keywords as a whole word. -/
def startsWithKeyword (keywords : List String) (text : List Char) : Bool :=
  keywords.any fun keyword =>
    keyword.toList.isPrefixOf text && !startsIdentifier (text.drop keyword.length)

/-- Whether a comment may start somewhere in the text. -/
def mentionsComment (text : List Char) : Bool :=
  Text.occurs ['/', '/'] text || Text.occurs ['/', '*'] text

/-- Whether there are as many closing as opening brackets of each kind, and every template literal
is closed. -/
def bracketsBalanced (text : List Char) : Bool :=
  text.count '(' == text.count ')' && text.count '[' == text.count ']'
    && text.count '{' == text.count '}' && text.count '\x60' % 2 == 0

/-- Whether a line starts an object member, and not a branch of a `switch`. -/
def startsMember (line : List Char) : Bool :=
  memberLine.occursIn line
    && !startsWithKeyword ["case", "default"] (Text.trimStart line)

/-- Whether a line goes on with the expression above it. -/
def continuesExpression (line : List Char) : Bool :=
  let line := Text.trimStart line
  if ['/', '/'].isPrefixOf line || ['/', '*'].isPrefixOf line then false
  else line.head?.any continuations.contains

/-- Whether a line ends inside an array, an object or an argument list. -/
def opensLiteral (line : List Char) : Bool :=
  (Text.trimEnd line).getLast?.any "[\x7b(,".toList.contains

/-! ## Conditions on a window -/

/-- A semicolon is what the compiler misses, or it does not say, and the next line does not go on
with the statement. -/
def expectsSemicolon (context : LineContext) : Bool :=
  (context.message.isEmpty || Text.occurs "';'".toList context.message)
    && !context.next.any continuesExpression

/-- A colon is what the compiler misses. -/
def expectsColon (context : LineContext) : Bool :=
  Text.occurs "':'".toList context.message

/-- A comma is what the compiler misses. -/
def expectsComma (context : LineContext) : Bool :=
  Text.occurs "','".toList context.message

/-- A comma is missed, and the next line is another member. -/
def memberFollows (context : LineContext) : Bool :=
  expectsComma context && context.next.any startsMember

/-- A comma is missed, and the current line is a member. -/
def memberMissesComma (context : LineContext) : Bool :=
  expectsComma context && startsMember context.current

/-- The current line assigns something and misses a semicolon. -/
def assignmentMissesSemicolon (context : LineContext) : Bool :=
  expectsSemicolon context && assignment.occursIn (Text.trimStart context.current)

/-- The first `await` in code is the one that the diagnostic points at. -/
def flagsFirstAwait (context : LineContext) : Bool :=
  match context.diagnostic with
  | none => false
  | some d =>
    let spans := literalSpans context.current
    match (awaitWord.allMatches context.current).find? fun m => !Span.covers spans m.start with
    | none => false
    | some m => m.start == Text.utf8Size (context.current.take (d.column - 1))

/-- The comma at the end of the line ends a statement: the line starts like one, neither follows an
opened literal nor is followed by another declarator, and closes all its brackets. -/
def terminatesStatement (context : LineContext) : Bool :=
  let line := Text.trimStart context.current
  if !(startsWithKeyword statementKeywords line || assignment.occursIn line) then false
  else if context.previous.any opensLiteral then false
  else if startsWithKeyword declarationKeywords line && context.next.any declarator.occursIn then
    false
  else bracketsBalanced line

/-- The next line does not go on with a name. -/
def memberAccessEndsHere (context : LineContext) : Bool :=
  !context.next.any fun next => startsIdentifier (Text.trimStart next)

/-- A diagnostic points here, and the line above has already closed its block. -/
def followsClosedBlock (context : LineContext) : Bool :=
  context.diagnostic.isSome && context.previous.any fun previous =>
    let previous := Text.trim previous
    previous == ['}'] || previous == ['}', ';'] || previous == ['}', ',']

/-- The word `void` does not stand before a blank anywhere in the line. -/
def lacksVoid (context : LineContext) : Bool :=
  !Text.occurs "void ".toList context.current

end SourceRepair.TypeScript
