import SourceRepair.Json.Decode
import SourceRepair.Json.Value

/-!
# Whole JSON texts

A text that is JSON from its start to its end is read as a `Value`. Whole numbers that fit a signed
or an unsigned 64-bit word stay whole numbers, and all others become doubles, minus zero among them.
-/

namespace SourceRepair.Json

/-- The number that a numeral writes, unless it is too large. -/
def Numeral.toValue? (n : Numeral) : Option Value :=
  match n.int?.filter fun value => -Int.pow 2 63 ≤ value && value < Int.pow 2 64 with
  | some value => some (.int value)
  | none => n.double?.map .double

mutual

/-- The value that an outline shows, if the text does not break in it. -/
def Outline.toValue? : Outline → Option Value
  | .null => some .null
  | .bool value => some (.bool value)
  | .number value => value.toValue?
  | .text value => value.map fun text => .string (String.ofList text)
  | .array items => items.toValues?.map .array
  | .object members => members.toValues?.map .object
  | .broken _ => none

/-- The elements, unless a break stands in them. -/
def Items.toValues? : Items → Option (List Value)
  | .close none => some []
  | .close (some _) => none
  | .cons item rest => do
    let value ← item.toValue?
    return value :: (← rest.toValues?)

/-- The members, unless a break stands in them. -/
def Members.toValues? : Members → Option (List (String × Value))
  | .close none => some []
  | .close (some _) => none
  | .cons none _ _ => none
  | .cons (some key) value rest => do
    let value ← value.toValue?
    return (String.ofList key, value) :: (← rest.toValues?)

end

/-- The value that a text writes. -/
def Value.ofText? (text : String) : Option Value :=
  let document := Document.ofText text.toList
  if document.trailing then none else document.outline.toValue?

/-- The member of an object under a key. -/
def Value.member? (key : String) : Value → Option Value
  | .object members => members.lookup key
  | _ => none

end SourceRepair.Json
