import SourceRepair.Calendar
import SourceRepair.Text.Basic
import SourceRepair.Text.Digits

/-!
# Instants

An instant is a moment in Coordinated Universal Time, to the nanosecond, and is written in the form
of RFC 3339 with a final `Z`. Reading is more lenient: the date and the time may be set apart by a
blank, blanks may stand between their parts, the zone may be any whole number of minutes from UTC,
and a year with a sign may have more than four digits.
-/

namespace SourceRepair

/-- A moment of Coordinated Universal Time; in a leap second, `second` is 60. -/
structure Instant where
  year : Int
  month : Nat
  day : Nat
  hour : Nat
  minute : Nat
  second : Nat
  nanosecond : Nat
  deriving DecidableEq, Repr, Inhabited

namespace Instant

open Calendar (isLeapYear daysInMonth)
open Text (isDecimal digitsValue signed)

/-! ## Moments and days -/

/-- The first of the years that dates can lie in. -/
def firstYear : Int := -262143

/-- The last of the years that dates can lie in. -/
def lastYear : Int := 262142

/-- Whether the fields name a moment. -/
def isValid (t : Instant) : Bool :=
  firstYear ≤ t.year && t.year ≤ lastYear && 1 ≤ t.month && t.month ≤ 12 && 1 ≤ t.day
    && t.day ≤ daysInMonth t.year t.month && t.hour ≤ 23 && t.minute ≤ 59 && t.second ≤ 60
    && t.nanosecond < Nat.pow 10 9

/-- The same time of the day before. -/
def previousDay (t : Instant) : Instant :=
  if 1 < t.day then { t with day := t.day - 1 }
  else if 1 < t.month then
    { t with month := t.month - 1, day := daysInMonth t.year (t.month - 1) }
  else { t with year := t.year - 1, month := 12, day := 31 }

/-- The same time of the day after. -/
def nextDay (t : Instant) : Instant :=
  if t.day < daysInMonth t.year t.month then { t with day := t.day + 1 }
  else if t.month < 12 then { t with month := t.month + 1, day := 1 }
  else { t with year := t.year + 1, month := 1, day := 1 }

/-- The moment so many minutes before `t`, which are less than a day either way. -/
def minusMinutes (t : Instant) (minutes : Int) : Instant :=
  let total : Int := 60 * t.hour + t.minute - minutes
  let time := (total % 1440).toNat
  let t := { t with hour := time / 60, minute := time % 60 }
  if total < 0 then t.previousDay else if 1440 ≤ total then t.nextDay else t

/-- The number of days from the first day of the year zero to the first day of a year. -/
def daysBeforeYear (year : Int) : Int :=
  365 * year + (year + 3) / 4 - (year + 99) / 100 + (year + 399) / 400

/-- The number of days of a year that lie before a month. -/
def daysBeforeMonth (year : Int) (month : Nat) : Nat :=
  (List.range (month - 1)).foldl (fun days m => days + daysInMonth year (m + 1)) 0

/-- The nanoseconds since the start of the year zero. -/
def nanoseconds (t : Instant) : Int :=
  let days := daysBeforeYear t.year + (daysBeforeMonth t.year t.month + t.day - 1 : Nat)
  (86400 * days + (3600 * t.hour + 60 * t.minute + t.second : Nat)) * Int.pow 10 9 + t.nanosecond

/-- The whole seconds from one moment to a later one. -/
def wholeSeconds (start stop : Instant) : Int :=
  (stop.nanoseconds - start.nanoseconds).tdiv (Int.pow 10 9)

/-! ## Writing -/

/-- A number with zeros in front up to the given width. -/
def padded (width n : Nat) : List Char :=
  let digits := (toString n).toList
  List.replicate (width - digits.length) '0' ++ digits

/-- The year: four digits, or a sign and at least four digits outside the years 0 to 9999. -/
def yearChars (year : Int) : List Char :=
  if 0 ≤ year ∧ year ≤ 9999 then padded 4 year.toNat
  else (if year < 0 then '-' else '+') :: padded 4 year.natAbs

/-- The fraction of a second with three, six or nine digits; a whole second has none. -/
def fractionChars (nanosecond : Nat) : List Char :=
  if nanosecond = 0 then []
  else if nanosecond % 1000000 = 0 then '.' :: padded 3 (nanosecond / 1000000)
  else if nanosecond % 1000 = 0 then '.' :: padded 6 (nanosecond / 1000)
  else '.' :: padded 9 nanosecond

/-- The written form of an instant. -/
def toChars (t : Instant) : List Char :=
  yearChars t.year ++ '-' :: padded 2 t.month ++ '-' :: padded 2 t.day ++ 'T' :: padded 2 t.hour
    ++ ':' :: padded 2 t.minute ++ ':' :: padded 2 t.second ++ fractionChars t.nanosecond ++ ['Z']

/-! ## Reading -/

/-- The number at the front, of at least one and at most `width` digits. -/
def readNumber (width : Nat) (text : List Char) : Option (Nat × List Char) :=
  match (text.take width).takeWhile isDecimal with
  | [] => none
  | digits =>
    some (digitsValue 10 digits, text.drop digits.length)

/-- A number after blanks. -/
def readPart (width : Nat) (text : List Char) : Option (Nat × List Char) :=
  readNumber width (Text.trimStart text)

/-- A given character after blanks. -/
def readMark (mark : Char) (text : List Char) : Option (List Char) :=
  match Text.trimStart text with
  | c :: rest => if c = mark then some rest else none
  | [] => none

/-- The year, of at most four digits unless it has a sign. -/
def readYear (text : List Char) : Option (Int × List Char) :=
  match Text.trimStart text with
  | '-' :: rest => (readNumber rest.length rest).map fun (n, rest) => (signed true n, rest)
  | '+' :: rest => (readNumber rest.length rest).map fun (n, rest) => ((n : Int), rest)
  | rest => (readNumber 4 rest).map fun (n, rest) => ((n : Int), rest)

/-- The nanoseconds after a decimal point, if there is one; digits after the ninth do not count. -/
def readFraction : List Char → Option (Nat × List Char)
  | '.' :: rest => do
    let (value, _) ← readNumber 9 rest
    let digits := rest.takeWhile isDecimal
    return (value * Nat.pow 10 (9 - digits.length), rest.drop digits.length)
  | rest => some (0, rest)

/-- Two digits, as a number. -/
def readTwoDigits : List Char → Option (Nat × List Char)
  | a :: b :: rest =>
    if isDecimal a ∧ isDecimal b then some (digitsValue 10 [a, b], rest) else none
  | _ => none

/-- The minutes that a zone is ahead of UTC: `Z`, `UTC`, or a sign and hours and minutes. -/
def readZone (text : List Char) : Option (Int × List Char) :=
  match text with
  | 'Z' :: rest => some (0, rest)
  | 'z' :: rest => some (0, rest)
  | sign :: rest => do
    if (text.take 3).map Char.toUpper = ['U', 'T', 'C'] then return (0, text.drop 3)
    let negative ←
      if sign = '+' then some false
      else if sign = '-' ∨ sign = '\u2212' then some true
      else none
    let (hours, rest) ← readTwoDigits rest
    let (minutes, rest) ←
      readTwoDigits (rest.dropWhile fun c => c == ':' || CharClass.isWhite c)
    if 23 < hours ∨ 59 < minutes then none
    else
      let ahead : Int := 60 * hours + minutes
      return (if negative then -ahead else ahead, rest)
  | [] => none

/-- The instant that a text names. -/
def ofChars? (text : List Char) : Option Instant := do
  let (year, text) ← readYear text
  let text ← readMark '-' text
  let (month, text) ← readPart 2 text
  let text ← readMark '-' text
  let (day, text) ← readPart 2 text
  let text ←
    match text with
    | c :: rest => if c = 'T' ∨ c = 't' ∨ c = ' ' then some rest else none
    | [] => none
  let (hour, text) ← readPart 2 text
  let text ← readMark ':' text
  let (minute, text) ← readPart 2 text
  let text ← readMark ':' text
  let (second, text) ← readPart 2 text
  let (nanosecond, text) ← readFraction text
  let (ahead, text) ← readZone (Text.trimStart text)
  if !(Text.trimStart text).isEmpty then none
  else
    let here : Instant := ⟨year, month, day, hour, minute, second, nanosecond⟩
    let t := here.minusMinutes ahead
    if here.isValid && t.isValid then some t else none

end Instant

end SourceRepair
