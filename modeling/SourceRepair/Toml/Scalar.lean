import SourceRepair.Calendar
import SourceRepair.Config.Setting
import SourceRepair.Text.Digits

/-!
# Words and strings of TOML

A value that is not a string, an array or a table is a word: a truth value, a number, or a date or
time. Underscores may stand between the digits of a number. Dates and times become strings in their
plainest form.
-/

namespace SourceRepair.Toml

open Text (isDecimal isHex digitsValue splitSign signed)

/-! ## Numbers -/

/-- The digits of a row in which single underscores may stand between digits. -/
def spacedDigits? (isDigit : Char → Bool) (row : List Char) : Option (List Char) :=
  let groups := Text.pieces '_' row
  if groups.all fun group => !group.isEmpty && group.all isDigit then some groups.flatten
  else none

/-- Decimal digits without a superfluous zero in front. -/
def wholeDigits? (row : List Char) : Option (List Char) := do
  let digits ← spacedDigits? isDecimal row
  if digits.head? = some '0' ∧ 1 < digits.length then none else some digits

/-- A whole number; it has to fit a signed 64-bit word. -/
def int? (word : List Char) : Option Int := do
  let based (base : Nat) (isDigit : Char → Bool) (row : List Char) : Option Int :=
    (spacedDigits? isDigit row).map fun digits => (digitsValue base digits : Int)
  let value ←
    match word with
    | '0' :: 'x' :: row => based 16 isHex row
    | '0' :: 'o' :: row => based 8 (fun c => 48 ≤ c.toNat && c.toNat ≤ 55) row
    | '0' :: 'b' :: row => based 2 (fun c => c == '0' || c == '1') row
    | _ =>
      (wholeDigits? (splitSign word).2).map fun digits =>
        signed (splitSign word).1 (digitsValue 10 digits)
  if -Int.pow 2 63 ≤ value ∧ value < Int.pow 2 63 then some value else none

/-- The exponent of a number. -/
def exponent? (row : List Char) : Option Int :=
  (spacedDigits? isDecimal (splitSign row).2).map fun digits =>
    signed (splitSign row).1 (digitsValue 10 digits)

/-- A number with a point or an exponent, which may not be too large for a double, or one that is
not finite. -/
def fractional? (word : List Char) : Option Fractional := do
  let (negative, row) := splitSign word
  if row = "inf".toList then return .infinite negative
  if row = "nan".toList then return .notANumber
  let (mantissa, power) :=
    (row.takeWhile fun c => c != 'e' && c != 'E', row.dropWhile fun c => c != 'e' && c != 'E')
  let exponent ←
    match power with
    | [] => some 0
    | _ :: row => exponent? row
  let (whole, fraction) ←
    match Text.pieces '.' mantissa with
    | [whole] => if power.isEmpty then none else some (whole, [])
    | [whole, fraction] => (spacedDigits? isDecimal fraction).map fun digits => (whole, digits)
    | _ => none
  let digits ← wholeDigits? whole
  let value := digitsValue 10 (digits ++ fraction)
  let exponent := exponent - fraction.length
  (Double.ofDecimal? negative value exponent).map .finite

/-! ## Dates and times -/

/-- A number of exactly so many digits, at least `low` and at most `high`. -/
def fixed? (width low high : Nat) (digits : List Char) : Option (List Char) :=
  let value := digitsValue 10 digits
  if digits.length = width ∧ digits.all isDecimal ∧ low ≤ value ∧ value ≤ high then some digits
  else none

/-- A date, as it is written. -/
def date? (word : List Char) : Option (List Char) := do
  match Text.pieces '-' word with
  | [year, month, day] =>
    let year ← fixed? 4 0 9999 year
    let month ← fixed? 2 1 12 month
    let _ ← fixed? 2 1 (Calendar.daysInMonth (digitsValue 10 year) (digitsValue 10 month)) day
    return word
  | _ => none

/-- A fraction of a second cut to nanoseconds, less the zeros at its end; one digit always stays. -/
def plainFraction (digits : List Char) : List Char :=
  match ((digits.take 9).reverse.dropWhile (· == '0')).reverse with
  | [] => ['0']
  | digits => digits

/-- A time of day in its plainest form; the seconds may be missing. -/
def time? (word : List Char) : Option (List Char) := do
  match Text.pieces ':' word with
  | [hour, minute] =>
    let hour ← fixed? 2 0 23 hour
    let minute ← fixed? 2 0 59 minute
    return hour ++ ':' :: minute
  | [hour, minute, second] =>
    let hour ← fixed? 2 0 23 hour
    let minute ← fixed? 2 0 59 minute
    let whole := second.takeWhile (· != '.')
    let whole ← fixed? 2 0 60 whole
    let fraction ←
      match second.dropWhile (· != '.') with
      | [] => some []
      | _ :: digits =>
        if digits.isEmpty || !digits.all isDecimal then none else some ('.' :: plainFraction digits)
    return hour ++ ':' :: minute ++ ':' :: whole ++ fraction
  | _ => none

/-- A time of day with or without an offset from UTC; an offset of nothing is written with `+`. -/
def zonedTime? (word : List Char) : Option (List Char) :=
  let isZone (c : Char) : Bool := c == 'Z' || c == 'z' || c == '+' || c == '-'
  let zone := word.dropWhile (!isZone ·)
  match time? (word.takeWhile (!isZone ·)), zone with
  | none, _ => none
  | some time, [] => some time
  | some time, ['Z'] => some (time ++ ['Z'])
  | some time, ['z'] => some (time ++ ['Z'])
  | some time, sign :: offset =>
    match Text.pieces ':' offset with
    | [hour, minute] =>
      if sign = 'Z' ∨ sign = 'z' then none
      else
        match fixed? 2 0 23 hour, fixed? 2 0 59 minute with
        | some hour, some minute =>
          let sign := if digitsValue 10 (hour ++ minute) = 0 then '+' else sign
          some (time ++ sign :: hour ++ ':' :: minute)
        | _, _ => none
    | _ => none

/-- A date, a time, or a date and a time with or without an offset, in its plainest form. -/
def moment? (word : List Char) : Option (List Char) :=
  let head := word.take 10
  match word.drop 10 with
  | [] => (date? word).or (time? word)
  | mark :: time =>
    if mark = 'T' ∨ mark = 't' ∨ mark = ' ' then do
      let date ← date? head
      let time ← zonedTime? time
      return date ++ 'T' :: time
    else time? word

/-! ## Words -/

/-- The value of a word. -/
def word? (word : List Char) : Option Setting :=
  if word = "true".toList then some (.bool true)
  else if word = "false".toList then some (.bool false)
  else
    match int? word, fractional? word, moment? word with
    | some value, _, _ => some (.int value)
    | none, some value, _ => some (.fractional value)
    | none, none, some value => some (.string (String.ofList value))
    | none, none, none => none

/-! ## Strings -/

/-- A character that a string may hold as it is: any but the controls, the tab excepted. -/
def isPlain (c : Char) : Bool :=
  c == '\t' || (32 ≤ c.toNat && c.toNat != 127)

/-- The character with the code written in `width` hexadecimal digits at the front. -/
def codeChar? (width : Nat) (text : List Char) : Option Char :=
  let digits := text.take width
  let code := digitsValue 16 digits
  if digits.length = width ∧ digits.all isHex ∧ code.isValidChar then some (Char.ofNat code)
  else none

/-- What follows a backslash: the character it stands for, and the number of characters it takes. -/
def escape? : List Char → Option (Char × Nat)
  | 'b' :: _ => some ('\x08', 1)
  | 'e' :: _ => some ('\x1b', 1)
  | 't' :: _ => some ('\t', 1)
  | 'n' :: _ => some ('\n', 1)
  | 'f' :: _ => some ('\x0c', 1)
  | 'r' :: _ => some ('\r', 1)
  | '"' :: _ => some ('"', 1)
  | '\\' :: _ => some ('\\', 1)
  | 'x' :: rest => (codeChar? 2 rest).map (·, 3)
  | 'u' :: rest => (codeChar? 4 rest).map (·, 5)
  | 'U' :: rest => (codeChar? 8 rest).map (·, 9)
  | _ => none

/-- The text of a string up to the quote that closes it, and what follows. -/
abbrev StringRead := Option (List Char × List Char)

/-- Puts a character in front of a string. -/
def StringRead.cons (c : Char) (read : StringRead) : StringRead :=
  read.map fun (text, rest) => (c :: text, rest)

/-- Reads a string between double quotes, of which the first has been read. -/
def readBasic (text : List Char) : StringRead :=
  match text with
  | [] => none
  | c :: rest =>
    if c = '"' then some ([], rest)
    else if c = '\\' then
      match escape? rest with
      | none => none
      | some (value, length) => (readBasic (rest.drop length)).cons value
    else if isPlain c then (readBasic rest).cons c
    else none
termination_by text.length
decreasing_by
  all_goals
    simp only [List.length_cons, List.length_drop]
    omega

/-- Reads a string between single quotes, of which the first has been read. -/
def readLiteral : List Char → StringRead
  | [] => none
  | c :: rest =>
    if c = '\'' then some ([], rest)
    else if isPlain c then (readLiteral rest).cons c
    else none

/-- The quotes at the front that close a string of several lines: three, and up to two before them
that belong to the text. -/
def closing? (quote : Char) (text : List Char) : StringRead :=
  let quotes := (text.takeWhile (· == quote)).length
  if 3 ≤ quotes then
    let inside := min (quotes - 3) 2
    some (List.replicate inside quote, text.drop (inside + 3))
  else none

/-- The text after a line break at the front; a break in front of a string of several lines does not
count. -/
def dropBreak : List Char → List Char
  | '\n' :: rest => rest
  | '\r' :: '\n' :: rest => rest
  | text => text

/-- The text without the blanks and line breaks in front of it. -/
def dropSpace : List Char → List Char
  | '\r' :: '\n' :: rest => dropSpace rest
  | c :: rest => if c = ' ' ∨ c = '\t' ∨ c = '\n' then dropSpace rest else c :: rest
  | [] => []

/-- What follows a backslash at the end of a line: the text after all the white space. -/
def lineEnd? (text : List Char) : Option (List Char) :=
  match text.dropWhile fun c => c == ' ' || c == '\t' with
  | '\n' :: rest => some (dropSpace rest)
  | '\r' :: '\n' :: rest => some (dropSpace rest)
  | _ => none

/-- Reads a string of several lines; with `escapes`, a backslash has a meaning in it. -/
def readLines (quote : Char) (escapes : Bool) (text : List Char) : StringRead :=
  match closing? quote text with
  | some closed => some closed
  | none =>
    match text with
    | [] => none
    | c :: rest =>
      if escapes && c == '\\' then
        match lineEnd? rest, escape? rest with
        | some after, _ =>
          if _ : after.length ≤ rest.length then readLines quote escapes after else none
        | none, some (value, length) => (readLines quote escapes (rest.drop length)).cons value
        | none, none => none
      else if c = '\r' then
        match rest with
        | '\n' :: rest => ((readLines quote escapes rest).cons '\n').cons '\r'
        | _ => none
      else if isPlain c || c == '\n' then (readLines quote escapes rest).cons c
      else none
termination_by text.length
decreasing_by
  all_goals
    simp only [List.length_cons, List.length_drop]
    omega

/-- Reads a string of any kind, if one starts here. -/
def readString : List Char → StringRead
  | '"' :: '"' :: '"' :: rest => readLines '"' true (dropBreak rest)
  | '\'' :: '\'' :: '\'' :: rest => readLines '\'' false (dropBreak rest)
  | '"' :: rest => readBasic rest
  | '\'' :: rest => readLiteral rest
  | _ => none

end SourceRepair.Toml
