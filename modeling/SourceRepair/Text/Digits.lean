/-!
# Digits

The ASCII digits, and the numbers that rows of them write. The digits above nine are letters of
either case.
-/

namespace SourceRepair.Text

/-- An ASCII digit. -/
def isDecimal (c : Char) : Bool :=
  48 ≤ c.toNat && c.toNat ≤ 57

/-- A digit of base sixteen. -/
def isHex (c : Char) : Bool :=
  isDecimal c || (65 ≤ c.toNat && c.toNat ≤ 70) || (97 ≤ c.toNat && c.toNat ≤ 102)

/-- The value of a digit in the bases up to sixteen. -/
def digitValue (c : Char) : Nat :=
  if isDecimal c then c.toNat - 48 else if c.toNat < 97 then c.toNat - 55 else c.toNat - 87

/-- The value of digits in a base. -/
def digitsValue (base : Nat) (digits : List Char) : Nat :=
  digits.foldl (fun n c => base * n + digitValue c) 0

/-- No digits write zero. -/
@[simp] theorem digitsValue_nil (base : Nat) : digitsValue base [] = 0 := rfl

/-- A digit more at the end shifts the others by one place. -/
@[simp] theorem digitsValue_concat (base : Nat) (digits : List Char) (c : Char) :
    digitsValue base (digits ++ [c]) = base * digitsValue base digits + digitValue c := by
  simp [digitsValue]

/-- Splits off a sign; the result says whether it is a minus sign. -/
def splitSign : List Char → Bool × List Char
  | '-' :: rest => (true, rest)
  | '+' :: rest => (false, rest)
  | rest => (false, rest)

/-- The number, or its negative. -/
def signed (negative : Bool) (value : Nat) : Int :=
  if negative then -(value : Int) else value

end SourceRepair.Text
