import SourceRepair.Text.Basic

/-!
# Literals and comments

Where the string literals and comments of a source text are. Everything else is code, and only code
is ever repaired. A string or template literal counts without its delimiters, a comment with them,
and a `${…}` hole inside a template literal is code. Regular expression literals are not recognised.

The spans are produced from left to right by a scanner whose state is what kind of text it stands
in, where that text began, and how many braces are open in each template hole around it.
-/

namespace SourceRepair

/-- A range of byte offsets, without its end. -/
structure Span where
  start : Nat
  stop : Nat
  deriving DecidableEq, Repr, Inhabited

/-- The kind of text that the scanner stands in; all but code know the offset they began at. -/
inductive ScanMode where
  | code
  /-- Inside a string literal with the given quote. -/
  | quoted (quote : Char) (start : Nat)
  | template (start : Nat)
  | lineComment (start : Nat)
  | blockComment (start : Nat)
  deriving DecidableEq, Repr, Inhabited

namespace ScanMode

/-- The span left open when the text ends in this mode at offset `stop`. -/
def openSpan (stop : Nat) : ScanMode → List Span
  | .code => []
  | .quoted _ start => [⟨start, stop⟩]
  | .template start => [⟨start, stop⟩]
  | .lineComment start => [⟨start, stop⟩]
  | .blockComment start => [⟨start, stop⟩]

end ScanMode

namespace LiteralSpans

/-- The spans of `text` that end at or after the offset `pos` where it starts, given the mode there
and the numbers of open braces in the template holes around it, innermost first. -/
def scan (mode : ScanMode) (holes : List Nat) (pos : Nat) : List Char → List Span
  | [] => mode.openSpan pos
  | c :: rest =>
    match mode with
    | .code =>
      if c = '\'' ∨ c = '"' then scan (.quoted c (pos + 1)) holes (pos + 1) rest
      else if c = '\x60' then scan (.template (pos + 1)) holes (pos + 1) rest
      else if c = '/' then
        match rest with
        | '/' :: rest => scan (.lineComment pos) holes (pos + 2) rest
        | '*' :: rest => scan (.blockComment pos) holes (pos + 2) rest
        | rest => scan .code holes (pos + 1) rest
      else if c = '{' then
        match holes with
        | [] => scan .code [] (pos + 1) rest
        | depth :: outer => scan .code ((depth + 1) :: outer) (pos + 1) rest
      else if c = '}' then
        match holes with
        | [] => scan .code [] (pos + 1) rest
        | 0 :: outer => scan (.template (pos + 1)) outer (pos + 1) rest
        | (depth + 1) :: outer => scan .code (depth :: outer) (pos + 1) rest
      else scan .code holes (pos + c.utf8Size) rest
    | .quoted quote start =>
      if c = '\\' then
        match rest with
        | [] => scan mode holes (pos + 1) []
        | d :: rest => scan mode holes (pos + 1 + d.utf8Size) rest
      else if c = '\n' ∨ c = quote then ⟨start, pos⟩ :: scan .code holes (pos + 1) rest
      else scan mode holes (pos + c.utf8Size) rest
    | .template start =>
      if c = '\\' then
        match rest with
        | [] => scan mode holes (pos + 1) []
        | d :: rest => scan mode holes (pos + 1 + d.utf8Size) rest
      else if c = '\x60' then ⟨start, pos⟩ :: scan .code holes (pos + 1) rest
      else if c = '$' then
        match rest with
        | '{' :: rest => ⟨start, pos⟩ :: scan .code (0 :: holes) (pos + 2) rest
        | rest => scan mode holes (pos + 1) rest
      else scan mode holes (pos + c.utf8Size) rest
    | .lineComment start =>
      if c = '\n' then ⟨start, pos⟩ :: scan .code holes (pos + 1) rest
      else scan mode holes (pos + c.utf8Size) rest
    | .blockComment start =>
      if c = '*' then
        match rest with
        | '/' :: rest => ⟨start, pos + 2⟩ :: scan .code holes (pos + 2) rest
        | rest => scan mode holes (pos + 1) rest
      else scan mode holes (pos + c.utf8Size) rest

end LiteralSpans

/-- The spans of a text that are not code, from left to right. -/
def literalSpans (text : List Char) : List Span :=
  LiteralSpans.scan .code [] 0 text

/-- Whether the byte at `offset` lies in a literal or comment: the first span that ends past it
decides. -/
def Span.covers (spans : List Span) (offset : Nat) : Bool :=
  match spans.find? (fun span => offset < span.stop) with
  | none => false
  | some span => span.start ≤ offset

end SourceRepair
