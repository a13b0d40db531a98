import SourceRepair.Json.Value
import SourceRepair.Text.Digits

/-!
# Settings

A setting is a value in a configuration file or on the command line, before it is known what it is
for. Settings are converted freely when they are used: whole numbers and words serve as truth
values, and numbers and truth values as strings. Setting a table goes into it key by key, and so
leaves the keys alone that are not mentioned.
-/

namespace SourceRepair

open Json (Value)

/-- A number with a decimal point or an exponent. -/
inductive Fractional where
  | finite (value : Double)
  | infinite (negative : Bool)
  | notANumber
  deriving DecidableEq, Repr, Inhabited

/-- A value of a configuration. -/
inductive Setting where
  /-- Nothing, as left by filling up an array. -/
  | absent
  | bool (value : Bool)
  | int (value : Int)
  | fractional (value : Fractional)
  | string (value : String)
  | array (items : List Setting)
  | table (members : List (String × Setting))
  deriving Repr, Inhabited

namespace Fractional

/-- Whether the number is zero, of either sign. -/
def isZero : Fractional → Bool
  | .finite value => value.isZero
  | _ => false

/-- The number written out in full. -/
def toText : Fractional → String
  | .finite value => String.ofList value.shortest.toChars
  | .infinite false => "inf"
  | .infinite true => "-inf"
  | .notANumber => "NaN"

end Fractional

namespace Setting

/-! ## Conversions -/

/-- The setting as a truth value. -/
def toBool? : Setting → Option Bool
  | .bool value => some value
  | .int value => some (value != 0)
  | .fractional value => some !value.isZero
  | .string value =>
    let word := String.ofList (value.toList.map Char.toLower)
    if ["1", "true", "on", "yes"].contains word then some true
    else if ["0", "false", "off", "no"].contains word then some false
    else none
  | _ => none

/-- The setting as a string. -/
def toText? : Setting → Option String
  | .bool true => some "true"
  | .bool false => some "false"
  | .int value => some (toString value)
  | .fractional value => some value.toText
  | .string value => some value
  | _ => none

mutual

/-- The setting as JSON; numbers that are not finite become `null`. -/
def toJson : Setting → Value
  | .absent => .null
  | .bool value => .bool value
  | .int value => .int value
  | .fractional (.finite value) => .double value
  | .fractional _ => .null
  | .string value => .string value
  | .array items => .array (itemsToJson items)
  | .table members => .object (membersToJson members)

/-- The elements as JSON. -/
def itemsToJson : List Setting → List Value
  | [] => []
  | item :: items => item.toJson :: itemsToJson items

/-- The members as JSON. -/
def membersToJson : List (String × Setting) → List (String × Value)
  | [] => []
  | (key, value) :: members => (key, value.toJson) :: membersToJson members

end

/-! ## Setting keys -/

/-- Replaces the value of a key, or adds the key. -/
def setKey (key : String) (value : Setting) :
    List (String × Setting) → List (String × Setting)
  | [] => [(key, value)]
  | (k, old) :: members =>
    if k = key then (key, value) :: members else (k, old) :: setKey key value members

/-- The members of a table; any other setting counts as an empty one. -/
def members : Setting → List (String × Setting)
  | .table members => members
  | _ => []

mutual

/-- The setting `old` after `new` has been set in its place: a table is set key by key. -/
def merge (old : Setting) : Setting → Setting
  | .table members => .table (mergeMembers old.members members)
  | new => new

/-- The members of a table after others have been set. -/
def mergeMembers (old : List (String × Setting)) :
    List (String × Setting) → List (String × Setting)
  | [] => old
  | (key, value) :: members =>
    mergeMembers (setKey key (merge ((old.lookup key).getD .absent) value) old) members

end

/-! ## Setting paths -/

/-- A step from a setting into it. -/
inductive Step where
  | key (name : String)
  /-- An element of an array; a negative index counts from the end. -/
  | index (position : Int)
  deriving DecidableEq, Repr

/-- Changes the element at a position of an array. The array grows as far as the position needs,
at its end or, if the position counts from the end, at its start. -/
def updateIndex (position : Int) (change : Setting → Setting) (items : List Setting) :
    List Setting :=
  let position := if position < 0 then position + items.length else position
  let items :=
    if position < 0 then List.replicate (-position).toNat .absent ++ items
    else items ++ List.replicate (position.toNat + 1 - items.length) .absent
  items.modify position.toNat change

/-- Sets `value` at the end of some steps into a setting. What is not a table or an array on the way
becomes one. -/
def setAt (value : Setting) : List Step → Setting → Setting
  | [], old => old.merge value
  | .key name :: steps, old =>
    let members := old.members
    .table (setKey name (setAt value steps ((members.lookup name).getD .absent)) members)
  | .index position :: steps, old =>
    let items := match old with
      | .array items => items
      | _ => []
    .array (updateIndex position (setAt value steps) items)

/-! ## Written paths -/

/-- A character of a key in a written path. -/
def isKeyChar (c : Char) : Bool :=
  let code := c.toNat
  CharClass.isAsciiLetter c || (48 ≤ code && code ≤ 57) || c == '_' || c == '-'

/-- Reads a key at the front. -/
def readKey? (text : List Char) : Option (String × List Char) :=
  match text.takeWhile isKeyChar with
  | [] => none
  | key => some (String.ofList key, text.dropWhile isKeyChar)

/-- The bounds of an index. -/
def indexLimit : Int := Int.pow 2 63

/-- Reads an index between brackets, of which the first has been read. -/
def readIndex? (text : List Char) : Option (Int × List Char) := do
  let isBlank (c : Char) : Bool := c == ' ' || c == '\t'
  let text := text.dropWhile isBlank
  let (negative, text) :=
    match text with
    | '-' :: rest => (true, rest)
    | _ => (false, text)
  let digits := text.takeWhile Text.isDecimal
  if digits.isEmpty then none
  else
    let value := Text.signed negative (Text.digitsValue 10 digits)
    if value < -indexLimit ∨ indexLimit ≤ value then none
    else
      match (text.drop digits.length).dropWhile isBlank with
      | ']' :: rest => some (value, rest)
      | _ => none

/-- Reads the steps after the first key of a path; `fuel` bounds their number. -/
def readSteps? : Nat → List Char → Option (List Step)
  | _, [] => some []
  | 0, _ => none
  | fuel + 1, '.' :: text => do
    let (key, rest) ← readKey? text
    return .key key :: (← readSteps? fuel rest)
  | fuel + 1, '[' :: text => do
    let (position, rest) ← readIndex? text
    return .index position :: (← readSteps? fuel rest)
  | _, _ => none

/-- The steps that a written path such as `compiler.args[0]` takes. -/
def readPath? (text : String) : Option (List Step) := do
  let (key, rest) ← readKey? text.toList
  return .key key :: (← readSteps? rest.length rest)

end Setting

end SourceRepair
