import SourceRepair.Text.CharTable
import SourceRepair.Text.Digits

/-!
# Character classes

The classes that patterns and trimming are written in, each decided for every Unicode character.
ASCII is decided by a short test of its own, and everything above it by the boundary tables; the
lemmas at the end say that the classes take in what the ASCII classes of `Char` do.
-/

namespace SourceRepair.CharClass

/-- Membership in a class given by its boundaries: an odd number of them are at or below `code`. -/
def inside (boundaries : List Nat) (code : Nat) : Bool :=
  boundaries.countP (· ≤ code) % 2 == 1

/-- White space: the characters with the property `White_Space`. -/
def isWhite (c : Char) : Bool :=
  let code := c.toNat
  if code < 0x80 then code == 0x20 || (9 ≤ code && code ≤ 13)
  else code == 0x85 || code == 0xA0 || code == 0x1680 || (0x2000 ≤ code && code ≤ 0x200A)
    || code == 0x2028 || code == 0x2029 || code == 0x202F || code == 0x205F || code == 0x3000

/-- A decimal digit of any script. -/
def isDigit (c : Char) : Bool :=
  let code := c.toNat
  if code < 0x80 then 48 ≤ code && code ≤ 57 else inside CharTable.decimalDigit code

/-- An ASCII letter. -/
def isAsciiLetter (c : Char) : Bool :=
  let code := c.toNat
  (65 ≤ code && code ≤ 90) || (97 ≤ code && code ≤ 122)

/-- A letter or number of any script. -/
def isAlphanumeric (c : Char) : Bool :=
  let code := c.toNat
  if code < 0x80 then isAsciiLetter c || isDigit c else inside CharTable.alphanumeric code

/-- A character that words are made of: alphabetic characters, digits, marks, connectors such as
`_`, and the two joiners. -/
def isWord (c : Char) : Bool :=
  let code := c.toNat
  if code < 0x80 then isAsciiLetter c || isDigit c || code == 95
  else inside CharTable.decimalDigit code || inside CharTable.wordNonDigit code

/-- A character that attaches to the one before it. -/
def isAttaching (c : Char) : Bool :=
  0x80 ≤ c.toNat && inside CharTable.attaching c.toNat

/-- A character that can be shown as itself. -/
def isPrintable (c : Char) : Bool :=
  let code := c.toNat
  if code < 0x80 then 32 ≤ code && code < 127 else !inside CharTable.unprintable code

/-- A character that identifiers are made of, as far as keywords are concerned. -/
def continuesIdentifier (c : Char) : Bool :=
  isAlphanumeric c || c == '_' || c == '$'

/-! ## The classes of ASCII characters -/

/-- ASCII white space is white space. -/
theorem isWhite_of_isWhitespace {c : Char} (h : c.isWhitespace) : isWhite c := by
  simp only [Char.isWhitespace, Bool.or_eq_true, decide_eq_true_eq] at h
  rcases h with ((rfl | rfl) | rfl) | rfl <;> decide

/-- ASCII digits are digits. -/
theorem isDigit_of_isDecimal {c : Char} (h : Text.isDecimal c) : isDigit c := by
  simp only [Text.isDecimal, Bool.and_eq_true, decide_eq_true_eq] at h
  have hlt : c.toNat < 0x80 := by omega
  simp [isDigit, hlt, h]

/-- Digits make words. -/
theorem isWord_of_isDigit {c : Char} (h : isDigit c) : isWord c := by
  by_cases hlt : c.toNat < 0x80
  · simp [isWord, hlt, h]
  · simp only [isDigit, hlt, if_false] at h
    simp [isWord, hlt, h]

end SourceRepair.CharClass
