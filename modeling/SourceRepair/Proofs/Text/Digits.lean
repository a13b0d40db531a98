import Mathlib
import SourceRepair.Text.Digits

/-!
# Numbers in digits

A number is written in ASCII digits, at least one of them and no zero in front, and its digits read
back as the number (`digitsValue_toDigits`).
-/

namespace SourceRepair.Text

/-- The digits of a number are ASCII digits. -/
theorem isDecimal_of_mem_toDigits {n : Nat} {c : Char} (h : c ∈ Nat.toDigits 10 n) :
    isDecimal c = true := by
  have hdigit := Nat.isDigit_of_mem_toDigits (by decide) (Nat.le_refl 10) h
  simp only [Char.isDigit, Bool.and_eq_true, decide_eq_true_eq, ge_iff_le,
    UInt32.le_iff_toNat_le] at hdigit
  simpa [isDecimal] using hdigit

/-- The value of ASCII digits, with what stands in front of them. -/
theorem foldl_digitValue {digits : List Char} (h : ∀ c ∈ digits, isDecimal c = true) (n : Nat) :
    digits.foldl (fun n c => 10 * n + digitValue c) n = Nat.ofDigitChars 10 digits n := by
  induction digits generalizing n with
  | nil => rfl
  | cons c more ih =>
    obtain ⟨hc, hmore⟩ := List.forall_mem_cons.mp h
    have hvalue : digitValue c = c.toNat - '0'.toNat := by
      rw [digitValue, if_pos hc]
      rfl
    rw [List.foldl_cons, ih hmore, hvalue, Nat.ofDigitChars_cons]

/-- The digits of a number read back as it, also behind zeros. -/
theorem digitsValue_replicate_append_toDigits (zeros n : Nat) :
    digitsValue 10 (List.replicate zeros '0' ++ Nat.toDigits 10 n) = n := by
  have hdecimal : ∀ c ∈ List.replicate zeros '0' ++ Nat.toDigits 10 n, isDecimal c = true := by
    intro c hc
    rcases List.mem_append.mp hc with hc | hc
    · rw [List.eq_of_mem_replicate hc]
      rfl
    · exact isDecimal_of_mem_toDigits hc
  rw [digitsValue, foldl_digitValue hdecimal, Nat.ofDigitChars_append,
    Nat.ofDigitChars_replicate_zero, Nat.mul_zero, Nat.ofDigitChars_ten_toDigits]

/-- The digits of a number read back as it. -/
@[simp] theorem digitsValue_toDigits (n : Nat) : digitsValue 10 (Nat.toDigits 10 n) = n :=
  digitsValue_replicate_append_toDigits 0 n

/-- Only zero has a zero in front. -/
theorem eq_zero_of_head?_toDigits {n : Nat} (h : (Nat.toDigits 10 n).head? = some '0') :
    n = 0 := by
  induction n using Nat.strongRecOn with
  | ind n ih =>
    by_cases hlt : n < 10
    · rw [Nat.toDigits_of_lt_base hlt] at h
      have hzero : ∀ d < 10, Nat.digitChar d = '0' → d = 0 := by decide
      exact hzero n hlt (Option.some.inj h)
    · -- the first digit is that of the number without its last one
      rw [Nat.toDigits_of_base_le (by decide) (Nat.not_lt.mp hlt),
        List.head?_append_of_ne_nil _ Nat.toDigits_ne_nil] at h
      have := ih (n / 10) (by omega) h
      omega

/-- A run of characters of a class ends where the first other one stands. -/
theorem takeWhile_append_cons {p : Char → Bool} {front : List Char} {c : Char}
    (hfront : ∀ d ∈ front, p d = true) (hc : p c = false) (back : List Char) :
    (front ++ c :: back).takeWhile p = front ∧ (front ++ c :: back).dropWhile p = c :: back := by
  constructor
  · rw [List.takeWhile_append_of_pos hfront, List.takeWhile_cons_of_neg (by simp [hc]),
      List.append_nil]
  · rw [List.dropWhile_append_of_pos hfront, List.dropWhile_cons_of_neg (by simp [hc])]

end SourceRepair.Text
