import SourceRepair.Json.Outline
import SourceRepair.Number.Double

/-!
# Decoding outlines

A decoder reads a value of an expected form out of an outline, or gives the first fault that stands
in the way in the order of the text. A record may be written as an object, in which unknown members
are skipped, or as an array of its fields in order.
-/

namespace SourceRepair.Json

/-- A reader of values of one form. -/
abbrev Decoder (α : Type) : Type := Outline → Except Fault α

/-! ## Single values -/

/-- The digits of a number that fit an unsigned 64-bit word, from the front, and the number of
digits left over. -/
def leadingWord (digits : Nat) : Nat × Nat :=
  (Nat.toDigits 10 digits).foldl (fun (word, left) c =>
    let longer := 10 * word + Text.digitValue c
    if left = 0 ∧ longer < Nat.pow 2 64 then (longer, 0) else (word, left + 1)) (0, 0)

/-- The double that a numeral is read as, unless it is too large. A word of its leading digits is
multiplied or divided by a power of ten; powers above `10 ^ 308` are taken in two steps. -/
def Numeral.double? (n : Numeral) : Option Double := do
  let (word, left) := leadingWord n.digits
  let start ← Double.nearest? n.negative word 1
  let exponent := n.exponent + left
  if start.isZero then return start
  else if 308 < exponent then none
  else if 0 ≤ exponent then start.timesPower? exponent.toNat
  else if -308 ≤ exponent then start.overPower? (-exponent).toNat
  else if exponent < -616 then return .zero n.negative
  else (← start.overPower? 308).overPower? (-exponent - 308).toNat

/-- Whether the number is too large for a double. -/
def Numeral.tooLarge (n : Numeral) : Bool :=
  n.double?.isNone

/-- The whole number that the numeral writes, if it writes one without point and exponent. Minus
zero is not a whole number. -/
def Numeral.int? (n : Numeral) : Option Int :=
  if n.plain then
    if n.negative then if n.digits = 0 then none else some (-n.digits) else some n.digits
  else none

/-- What a reader finds wrong with a value that has another form than it expects. -/
def Outline.wrongKind : Outline → Fault
  | .null => .mismatched
  | .bool _ => .mismatched
  | .number n => if n.tooLarge then .malformed else .mismatched
  | .text none => .malformed
  | .text (some _) => .mismatched
  | .array _ => .mismatched
  | .object _ => .mismatched
  | .broken stop => stop.decoding

namespace Decoder

/-- Reads a string. -/
def string : Decoder String
  | .text (some value) => .ok (String.ofList value)
  | other => .error other.wrongKind

/-- Reads `true` or `false`. -/
def bool : Decoder Bool
  | .bool value => .ok value
  | other => .error other.wrongKind

/-- Reads a whole number from `low` to `high`. -/
def int (low high : Int) : Decoder Int
  | .number n =>
    match n.int? with
    | some value =>
      if low ≤ value ∧ value ≤ high then .ok value else .error (Outline.number n).wrongKind
    | none => .error (Outline.number n).wrongKind
  | other => .error other.wrongKind

/-- Reads a natural number below `limit`. -/
def nat (limit : Nat) : Decoder Nat := fun outline =>
  (int 0 (limit - 1) outline).map Int.toNat

/-- Reads a value that may be `null`. -/
def nullable {α : Type} (decode : Decoder α) : Decoder (Option α)
  | .null => .ok none
  | other => (decode other).map some

/-- Reads a string in a form of its own. -/
def parsed {α : Type} (parse? : List Char → Option α) : Decoder α
  | .text (some value) =>
    match parse? value with
    | some a => .ok a
    | none => .error .mismatched
  | other => .error other.wrongKind

end Decoder

/-! ## Arrays -/

/-- Reads the elements of an array. -/
def Items.decode {α : Type} (decode : Decoder α) : Items → Except Fault (List α)
  | .close none => .ok []
  | .close (some stop) => .error stop.decoding
  | .cons item rest => do
    let value ← decode item
    let values ← rest.decode decode
    return value :: values

/-- Reads an array of values of one form. -/
def Decoder.list {α : Type} (decode : Decoder α) : Decoder (List α)
  | .array items => items.decode decode
  | other => .error other.wrongKind

/-! ## Skipping -/

mutual

/-- The fault that a reader meets who skips a value. -/
def Outline.skipFault? : Outline → Option Fault
  | .array items => items.skipFault?
  | .object members => members.skipFault?
  | .broken stop => some stop.skipping
  | _ => none

/-- The fault that a reader meets who skips the elements of an array. -/
def Items.skipFault? : Items → Option Fault
  | .close stop => stop.map (·.skipping)
  | .cons item rest => item.skipFault?.or rest.skipFault?

/-- The fault that a reader meets who skips the members of an object. -/
def Members.skipFault? : Members → Option Fault
  | .close stop => stop.map (·.skipping)
  | .cons _ value rest => value.skipFault?.or rest.skipFault?

end

/-! ## Records -/

/-- Where the field of a record may be missing. -/
inductive Presence where
  /-- It may not be missing. -/
  | required
  /-- It may be missing from an object. -/
  | optional
  /-- It may be missing from an object, and at the end of an array. -/
  | defaulted
  deriving DecidableEq, Repr

/-- A field of a record: its name, whether it may be missing, and the form of its value. -/
structure Field where
  name : String
  presence : Presence
  fault? : Outline → Option Fault

/-- A field whose value a decoder reads. -/
def Field.of {α : Type} (name : String) (presence : Presence) (decode : Decoder α) : Field where
  name := name
  presence := presence
  fault? outline :=
    match decode outline with
    | .ok _ => none
    | .error fault => some fault

/-- Goes through the members of an object in order. The known ones have to be of their form and
occur once, the others are skipped; the result is the known ones. -/
def Members.collect (fields : List Field) (found : List (String × Outline)) :
    Members → Except Fault (List (String × Outline))
  | .close none =>
    if fields.all fun f => f.presence != .required || found.any (·.1 == f.name) then .ok found
    else .error .mismatched
  | .close (some stop) => .error stop.decoding
  | .cons none _ _ => .error .malformed
  | .cons (some key) value rest =>
    let name := String.ofList key
    match fields.find? (·.name == name) with
    | none =>
      match value.skipFault? with
      | some fault => .error fault
      | none => rest.collect fields found
    | some field =>
      if found.any (·.1 == name) then .error .mismatched
      else
        match field.fault? value with
        | some fault => .error fault
        | none => rest.collect fields ((name, value) :: found)

/-- Goes through the elements of an array that lists the fields in order, and has no others. -/
def Items.collect : List Field → Items → Except Fault (List (String × Outline))
  | [], .close none => .ok []
  | [], .close (some stop) => .error stop.decoding
  | [], .cons _ _ => .error .malformed
  | field :: fields, .close none =>
    if (field :: fields).all (·.presence == .defaulted) then .ok [] else .error .mismatched
  | _ :: _, .close (some stop) => .error stop.decoding
  | field :: fields, .cons item rest =>
    match field.fault? item with
    | some fault => .error fault
    | none => do
      let found ← rest.collect fields
      return (field.name, item) :: found

/-- The fields of a record, each with a value of its form. -/
def Outline.record (fields : List Field) : Outline → Except Fault (List (String × Outline))
  | .object members => members.collect fields []
  | .array items => items.collect fields
  | other => .error other.wrongKind

/-- Reads a field of a record. -/
def readField {α : Type} (found : List (String × Outline)) (name : String)
    (decode : Decoder α) : Except Fault α :=
  match found.lookup name with
  | none => .error .mismatched
  | some value => decode value

/-- Reads a field of a record that may be missing. -/
def readField? {α : Type} (found : List (String × Outline)) (name : String)
    (decode : Decoder α) : Except Fault (Option α) :=
  match found.lookup name with
  | none => .ok none
  | some value => (decode value).map some

/-- Reads a whole text. -/
def decodeText {α : Type} (decode : Decoder α) (text : List Char) : Except Fault α := do
  let document := Document.ofText text
  let value ← decode document.outline
  if document.trailing then throw .malformed
  return value

end SourceRepair.Json
