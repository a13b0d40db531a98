import SourceRepair.Number.Double

/-!
# The fewest digits that read back

A double is written with the fewest decimal digits that are rounded to it again; of several such
decimals, with the nearest. A decimal with few digits is a multiple of a large power of ten, so the
powers are tried from the largest one down.
-/

namespace SourceRepair

/-- A decimal number, `digits * 10 ^ exponent` with a sign, which zero has too. -/
structure Decimal where
  negative : Bool
  digits : Nat
  exponent : Int
  deriving DecidableEq, Repr, Inhabited

namespace Decimal

/-- The number written out in full, with a point where there is a fraction. -/
def toChars (d : Decimal) : List Char :=
  let digits := Nat.toDigits 10 d.digits
  let text :=
    if 0 ≤ d.exponent then digits ++ List.replicate d.exponent.toNat '0'
    else
      let places := (-d.exponent).toNat
      let digits := List.replicate (places + 1 - digits.length) '0' ++ digits
      digits.take (digits.length - places) ++ '.' :: digits.drop (digits.length - places)
  if d.negative then '-' :: text else text

end Decimal

namespace Double

/-- The multiple of `10 ^ power` that is nearest to a double, as the multiplier, if it is rounded to
the double. Distances are measured in quarters of the double's last bit: a neighbour is four of them
away, and the one below the least significand of 53 bits only two. -/
def multiple? (d : Double) (power : Int) : Option Nat :=
  let value := 4 * d.significand
  let reach := if d.significand = Nat.pow 2 52 ∧ leastExponent < d.exponent then 1 else 2
  let (unit, scale) :=
    scaleDown (Nat.pow 10 power.toNat) (Nat.pow 10 (-power).toNat) (d.exponent - 2)
  let readsBack (multiplier : Nat) : Bool :=
    let low := (value - reach) * scale
    let high := (value + 2) * scale
    let place := multiplier * unit
    if d.significand % 2 = 0 then low ≤ place && place ≤ high else low < place && place < high
  let below := value * scale / unit
  let nearBelow : Bool := value * scale - below * unit < (below + 1) * unit - value * scale
  if readsBack below && (nearBelow || !readsBack (below + 1)) then some below
  else if readsBack (below + 1) then some (below + 1)
  else none

/-- The powers of ten that the last digit of a double can stand for, from the largest one down. -/
def lastPlaces : List Int :=
  (List.range 640).map fun n : Nat => (310 : Int) - n

/-- The decimal with the fewest digits that is rounded to a double. -/
def shortest (d : Double) : Decimal :=
  if d.isZero then ⟨d.negative, 0, 0⟩
  else
    (lastPlaces.findSome? fun power =>
      (d.multiple? power).map fun digits => ⟨d.negative, digits, power⟩).getD default

end Double

end SourceRepair
