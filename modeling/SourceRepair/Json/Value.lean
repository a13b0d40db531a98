import SourceRepair.Number.Shortest
import SourceRepair.Text.Basic

/-!
# JSON values and their indented form

`Value.pretty` writes a value with one member or element a line, indented by two spaces a level.
Empty arrays and objects stay on one line. In a string, quotes, backslashes and control characters
are escaped, and everything else stands for itself.
-/

namespace SourceRepair.Json

/-- A JSON value; the members of an object keep their order. -/
inductive Value where
  | null
  | bool (value : Bool)
  | int (value : Int)
  | double (value : Double)
  | string (value : String)
  | array (items : List Value)
  | object (members : List (String × Value))
  deriving Repr, Inhabited

namespace Value

/-- A count. -/
def nat (n : Nat) : Value :=
  .int n

/-- A list of strings. -/
def strings (items : List String) : Value :=
  .array (items.map .string)

/-- A value that may be missing, and is then `null`. -/
def ofOption {α : Type} (encode : α → Value) : Option α → Value
  | none => .null
  | some a => encode a

end Value

/-! ## The indented form -/

/-- A hexadecimal digit, in lower case. -/
def hexDigit (n : Nat) : Char :=
  if n < 10 then Char.ofNat (48 + n) else Char.ofNat (87 + n)

/-- A character as it stands inside a string. -/
def escapeChar (c : Char) : List Char :=
  if c = '"' then ['\\', '"']
  else if c = '\\' then ['\\', '\\']
  else if c = '\n' then ['\\', 'n']
  else if c = '\r' then ['\\', 'r']
  else if c = '\t' then ['\\', 't']
  else if c = '\x08' then ['\\', 'b']
  else if c = '\x0c' then ['\\', 'f']
  else if c.toNat < 32 then
    ['\\', 'u', '0', '0', hexDigit (c.toNat / 16), hexDigit (c.toNat % 16)]
  else [c]

/-- A string between quotes. -/
def quote (text : List Char) : List Char :=
  '"' :: text.flatMap escapeChar ++ ['"']

/-- A double, with the fewest digits that read back, and an exponent. -/
def doubleChars (d : Double) : List Char :=
  { d.shortest with exponent := 0 }.toChars ++ 'e' :: (toString d.shortest.exponent).toList

/-- The start of a line that is indented by `depth` levels. -/
def newLine (depth : Nat) : List Char :=
  '\n' :: List.replicate (2 * depth) ' '

mutual

/-- The indented form of a value that stands at the given depth. -/
def Value.prettyAt (depth : Nat) : Value → List Char
  | .null => "null".toList
  | .bool true => "true".toList
  | .bool false => "false".toList
  | .int n => (toString n).toList
  | .double d => doubleChars d
  | .string s => quote s.toList
  | .array [] => ['[', ']']
  | .array (item :: items) =>
    '[' :: newLine (depth + 1) ++ item.prettyAt (depth + 1)
      ++ Value.prettyItems (depth + 1) items ++ newLine depth ++ [']']
  | .object [] => ['{', '}']
  | .object ((key, value) :: members) =>
    '{' :: newLine (depth + 1) ++ quote key.toList ++ ": ".toList ++ value.prettyAt (depth + 1)
      ++ Value.prettyMembers (depth + 1) members ++ newLine depth ++ ['}']

/-- The elements after the first, each on a line of its own. -/
def Value.prettyItems (depth : Nat) : List Value → List Char
  | [] => []
  | item :: items =>
    ',' :: newLine depth ++ item.prettyAt depth ++ Value.prettyItems depth items

/-- The members after the first, each on a line of its own. -/
def Value.prettyMembers (depth : Nat) : List (String × Value) → List Char
  | [] => []
  | (key, value) :: members =>
    ',' :: newLine depth ++ quote key.toList ++ ": ".toList ++ value.prettyAt depth
      ++ Value.prettyMembers depth members

end

/-- The indented form of a value. -/
def Value.pretty (value : Value) : String :=
  String.ofList (value.prettyAt 0)

end SourceRepair.Json
