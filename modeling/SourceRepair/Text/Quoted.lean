import SourceRepair.Text.CharClass

/-!
# Quoted text

Text that the user typed is shown between quotes, with every character made visible: the usual
control characters, quotes and backslashes have short escapes, and characters that are not printable
or that would merge with the one before them are written by their code.
-/

namespace SourceRepair.Text

/-- A number in base sixteen. -/
def hexDigits (n : Nat) : List Char :=
  Nat.toDigits 16 n

/-- A character as it stands between the quotes. -/
def visibleChar (c : Char) : List Char :=
  if c = '\x00' then ['\\', '0']
  else if c = '\t' then ['\\', 't']
  else if c = '\n' then ['\\', 'n']
  else if c = '\r' then ['\\', 'r']
  else if c = '"' then ['\\', '"']
  else if c = '\\' then ['\\', '\\']
  else if CharClass.isAttaching c || !CharClass.isPrintable c then
    ['\\', 'u', '{'] ++ hexDigits c.toNat ++ ['}']
  else [c]

/-- A text between quotes. -/
def quoted (text : String) : String :=
  String.ofList ('"' :: text.toList.flatMap visibleChar ++ ['"'])

end SourceRepair.Text
