import SourceRepair.Text.Basic

/-!
# Lines and their terminators

A text is split after every line feed. A line keeps its terminator beside its text, so that writing
untouched lines back reproduces them byte for byte: `render_ofText` says that nothing is lost.
A carriage return belongs to the terminator only directly before the line feed.
-/

namespace SourceRepair

/-- How a line ends in the text it was read from. -/
inductive Ending where
  /-- The text stops without a terminator. -/
  | missing
  | lineFeed
  | carriageReturnLineFeed
  deriving DecidableEq, Repr, Inhabited

/-- The characters of a terminator. -/
def Ending.toList : Ending → List Char
  | .missing => []
  | .lineFeed => ['\n']
  | .carriageReturnLineFeed => ['\r', '\n']

/-- A line's text, and the terminator after it. -/
structure Line where
  text : List Char
  ending : Ending
  deriving DecidableEq, Repr, Inhabited

namespace Line

/-- Puts one more character in front of the first line. -/
def extend (c : Char) : List Line → List Line
  | [] => [⟨[c], .missing⟩]
  | line :: more => ⟨c :: line.text, line.ending⟩ :: more

/-- The lines of a text; the empty text has none, and a final terminator opens no further line. -/
def ofText : List Char → List Line
  | [] => []
  | '\n' :: rest => ⟨[], .lineFeed⟩ :: ofText rest
  | '\r' :: '\n' :: rest => ⟨[], .carriageReturnLineFeed⟩ :: ofText rest
  | c :: rest => extend c (ofText rest)

/-- Writes one line back. -/
def toList (line : Line) : List Char :=
  line.text ++ line.ending.toList

/-- Writes lines back. -/
def render (lines : List Line) : List Char :=
  lines.flatMap toList

/-- No lines make no text. -/
@[simp] theorem render_nil : render [] = [] := rfl

/-- The first line comes first. -/
@[simp] theorem render_cons (line : Line) (lines : List Line) :
    render (line :: lines) = line.text ++ line.ending.toList ++ render lines := rfl

/-- Lines in a row make texts in a row. -/
@[simp] theorem render_append (front back : List Line) :
    render (front ++ back) = render front ++ render back := by
  simp [render]

/-- A character put in front of the first line stands in front of the text. -/
@[simp] theorem render_extend (c : Char) (lines : List Line) :
    render (extend c lines) = c :: render lines := by
  cases lines <;> simp [extend, Ending.toList]

/-- Reading a text into lines and writing them back gives the text. -/
theorem render_ofText (text : List Char) : render (ofText text) = text := by
  fun_induction ofText text <;> simp_all [Ending.toList]

end Line

end SourceRepair
