/-!
# Doubles

The finite numbers of the binary format with 53 significant bits, and the rounding of quotients to
them. A quotient that lies halfway between two doubles goes to the one whose last bit is zero.
-/

namespace SourceRepair

/-- A finite double, `significand * 2 ^ exponent` with a sign, which zero has too. The significand
has 53 bits, unless the exponent is the least one. -/
structure Double where
  negative : Bool
  significand : Nat
  exponent : Int
  deriving DecidableEq, Repr, Inhabited

namespace Double

/-- The exponent of the smallest doubles. -/
def leastExponent : Int := -1074

/-- The exponent of the largest doubles. -/
def greatestExponent : Int := 971

/-- Zero, with a sign. -/
def zero (negative : Bool) : Double :=
  ⟨negative, 0, leastExponent⟩

/-- Whether the number is zero, of either sign. -/
def isZero (d : Double) : Bool :=
  d.significand == 0

/-- The whole number nearest to a quotient; a half goes to the even neighbour. -/
def roundDiv (num den : Nat) : Nat :=
  let below := num / den
  let rest := 2 * (num % den)
  if rest < den ∨ rest = den ∧ below % 2 = 0 then below else below + 1

/-- The whole number chosen is at most a half away from the quotient. -/
theorem roundDiv_near {num den : Nat} (h : 0 < den) :
    2 * (den * roundDiv num den) ≤ 2 * num + den ∧
      2 * num ≤ 2 * (den * roundDiv num den) + den := by
  have hsum := Nat.div_add_mod num den
  have hlt := Nat.mod_lt num h
  unfold roundDiv
  dsimp only
  split
  · omega
  · rw [Nat.mul_add]
    omega

/-- The quotient `num / den / 2 ^ exponent` as a quotient. -/
def scaleDown (num den : Nat) (exponent : Int) : Nat × Nat :=
  if 0 ≤ exponent then (num, den * Nat.pow 2 exponent.toNat)
  else (num * Nat.pow 2 (-exponent).toNat, den)

/-- The double nearest to a quotient, unless that is too large. -/
def nearest? (negative : Bool) (num den : Nat) : Option Double :=
  if num = 0 then some (zero negative)
  else
    let guess : Int := (num.log2 : Int) - den.log2 - 52
    let (n, d) := scaleDown num den guess
    let exponent := max (if n < d * Nat.pow 2 52 then guess - 1 else guess) leastExponent
    let (n, d) := scaleDown num den exponent
    let significand := roundDiv n d
    let (significand, exponent) :=
      if significand = Nat.pow 2 53 then (Nat.pow 2 52, exponent + 1) else (significand, exponent)
    if greatestExponent < exponent then none else some ⟨negative, significand, exponent⟩

/-- The double nearest to `digits * 10 ^ exponent`, unless that is too large. -/
def ofDecimal? (negative : Bool) (digits : Nat) (exponent : Int) : Option Double :=
  let places : Int := (Nat.toDigits 10 digits).length + exponent
  if digits = 0 ∨ places < -330 then some (zero negative)
  else if 310 < places then none
  else if 0 ≤ exponent then nearest? negative (digits * Nat.pow 10 exponent.toNat) 1
  else nearest? negative digits (Nat.pow 10 (-exponent).toNat)

/-- The quotient that a double is, without its sign. -/
def ratio (d : Double) : Nat × Nat :=
  scaleDown d.significand 1 (-d.exponent)

/-- The product of a double and a power of ten, both rounded, unless it is too large. -/
def timesPower? (d : Double) (power : Nat) : Option Double := do
  let factor ← ofDecimal? false 1 power
  nearest? d.negative (d.ratio.1 * factor.ratio.1) (d.ratio.2 * factor.ratio.2)

/-- The quotient of a double and a power of ten, both rounded. -/
def overPower? (d : Double) (power : Nat) : Option Double := do
  let divisor ← ofDecimal? false 1 power
  nearest? d.negative (d.ratio.1 * divisor.ratio.2) (d.ratio.2 * divisor.ratio.1)

end Double

end SourceRepair
