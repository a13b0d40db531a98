import SourceRepair.Proofs.Text.Digits
import SourceRepair.Report.Instant

/-!
# Instants read back

An instant of the years 0 to 9999 is read back from its written form (`ofChars?_toChars`). Every
part has a fixed number of digits there, so a reader that takes at most as many stops where the part
ends; the digits of a fraction end at the final `Z`.
-/

namespace SourceRepair.Instant

open Text (isDecimal digitsValue)
open CharClass (isWhite)

/-! ## Digits -/

section Padded

variable {width n : Nat} {rest : List Char}

/-- The padded form is the digits behind zeros. -/
theorem padded_eq (width n : Nat) :
    padded width n
      = List.replicate (width - (Nat.toDigits 10 n).length) '0' ++ Nat.toDigits 10 n := by
  rw [padded, Nat.toString_eq_ofList_toDigits, String.toList_ofList]

theorem isDecimal_of_mem_padded : ∀ c ∈ padded width n, isDecimal c = true := by
  intro c hc
  rw [padded_eq] at hc
  rcases List.mem_append.mp hc with hc | hc
  · rw [List.eq_of_mem_replicate hc]
    rfl
  · exact Text.isDecimal_of_mem_toDigits hc

@[simp] theorem digitsValue_padded (width n : Nat) : digitsValue 10 (padded width n) = n := by
  rw [padded_eq, Text.digitsValue_replicate_append_toDigits]

/-- A number that fits in the width fills it. -/
theorem length_padded (hwidth : 0 < width) (h : n < 10 ^ width) :
    (padded width n).length = width := by
  have hlength := (Nat.length_toDigits_le_iff (b := 10) (n := n) (by decide) hwidth).mpr h
  rw [padded_eq, List.length_append, List.length_replicate]
  omega

theorem exists_padded_eq_cons (width n : Nat) :
    ∃ c more, padded width n = c :: more ∧ isDecimal c = true := by
  cases hpadded : padded width n with
  | nil =>
    rw [padded_eq, List.append_eq_nil_iff] at hpadded
    exact absurd hpadded.2 Nat.toDigits_ne_nil
  | cons c more => exact ⟨c, more, rfl, isDecimal_of_mem_padded c (hpadded ▸ List.mem_cons_self)⟩

/-- A digit is no white space, and no sign. -/
theorem of_isDecimal {c : Char} (h : isDecimal c = true) :
    isWhite c = false ∧ c ≠ '-' ∧ c ≠ '+' := by
  have hne : ∀ d, isDecimal d = false → c ≠ d := by
    rintro d hd rfl
    rw [h] at hd
    exact absurd hd (by decide)
  refine ⟨?_, hne '-' (by decide), hne '+' (by decide)⟩
  simp only [isDecimal, Bool.and_eq_true, decide_eq_true_eq] at h
  unfold isWhite
  rw [if_pos (by omega)]
  simp only [Bool.or_eq_false_iff, beq_eq_false_iff_ne, Bool.and_eq_false_iff,
    decide_eq_false_iff_not]
  omega

/-- Blanks are not looked for in front of digits. -/
theorem trimStart_padded (width n : Nat) (rest : List Char) :
    Text.trimStart (padded width n ++ rest) = padded width n ++ rest := by
  obtain ⟨c, more, hpadded, hc⟩ := exists_padded_eq_cons width n
  rw [hpadded, List.cons_append, Text.trimStart,
    List.dropWhile_cons_of_neg (by simp [(of_isDecimal hc).1])]

/-- Digits are read that fill the width, or that something else follows. -/
theorem readNumber_append {digits : List Char} (hne : digits ≠ [])
    (hdecimal : ∀ c ∈ digits, isDecimal c = true) (hle : digits.length ≤ width)
    (hrest : digits.length = width ∨ ∀ c ∈ rest.head?, isDecimal c = false) :
    readNumber width (digits ++ rest) = some (digitsValue 10 digits, rest) := by
  have hnone : (rest.take (width - digits.length)).takeWhile isDecimal = [] := by
    rcases hrest with hwidth | hhead
    · rw [hwidth, Nat.sub_self, List.take_zero]
      rfl
    · cases rest with
      | nil => simp
      | cons c more =>
        cases hk : width - digits.length with
        | zero => rfl
        | succ k => rw [List.take_succ_cons, List.takeWhile_cons_of_neg (by simp [hhead c rfl])]
  have htake : ((digits ++ rest).take width).takeWhile isDecimal = digits := by
    rw [List.take_append, List.take_of_length_le hle, List.takeWhile_append_of_pos hdecimal, hnone,
      List.append_nil]
  rw [readNumber, htake]
  cases digits with
  | nil => exact absurd rfl hne
  | cons c more =>
    show some (_, (c :: more ++ rest).drop (c :: more).length) = _
    rw [List.drop_left]

/-- A number that fits in the width is read from its padded form. -/
theorem readNumber_padded (hwidth : 0 < width) (h : n < 10 ^ width) (rest : List Char) :
    readNumber width (padded width n ++ rest) = some (n, rest) := by
  obtain ⟨c, more, hpadded, -⟩ := exists_padded_eq_cons width n
  have hlength := length_padded hwidth h
  rw [readNumber_append (hpadded ▸ List.cons_ne_nil c more) isDecimal_of_mem_padded
    (Nat.le_of_eq hlength) (.inl hlength), digitsValue_padded]

end Padded

/-! ## Parts -/

/-- Two digits are a part. -/
theorem readPart_padded {n : Nat} (h : n < 100) (rest : List Char) :
    readPart 2 (padded 2 n ++ rest) = some (n, rest) := by
  rw [readPart, trimStart_padded, readNumber_padded (by decide) h]

/-- The marks between the parts are no white space. -/
theorem readMark_cons {mark : Char} (h : isWhite mark = false) (rest : List Char) :
    readMark mark (mark :: rest) = some rest := by
  rw [readMark, Text.trimStart, List.dropWhile_cons_of_neg (by simp [h])]
  exact if_pos rfl

/-- A year of four digits. -/
theorem readYear_yearChars {year : Int} (hlow : 0 ≤ year) (hhigh : year ≤ 9999)
    (rest : List Char) : readYear (yearChars year ++ rest) = some (year, rest) := by
  have hfits : year.toNat < 10 ^ 4 := by omega
  have hyear : (year.toNat : Int) = year := by omega
  rw [yearChars, if_pos ⟨hlow, hhigh⟩, readYear, trimStart_padded]
  have hnumber : readNumber 4 (padded 4 year.toNat ++ rest) = some (year.toNat, rest) :=
    readNumber_padded (by decide) hfits rest
  obtain ⟨c, more, hpadded, hc⟩ := exists_padded_eq_cons 4 year.toNat
  rw [hpadded, List.cons_append] at hnumber ⊢
  split
  · rename_i hminus
    exact absurd (List.cons.inj hminus).1 (of_isDecimal hc).2.1
  · rename_i hplus
    exact absurd (List.cons.inj hplus).1 (of_isDecimal hc).2.2
  · rw [hnumber]
    show some ((year.toNat : Int), rest) = some (year, rest)
    rw [hyear]

/-- A fraction of a second, in as many digits as it needs. -/
theorem readFraction_fractionChars {nanosecond : Nat} (h : nanosecond < 10 ^ 9) :
    readFraction (fractionChars nanosecond ++ ['Z']) = some (nanosecond, ['Z']) := by
  have hpoint : ∀ width n, 0 < width → width ≤ 9 → n < 10 ^ width →
      readFraction ('.' :: padded width n ++ ['Z']) = some (n * 10 ^ (9 - width), ['Z']) := by
    intro width n hwidth hle hn
    obtain ⟨c, more, hpadded, -⟩ := exists_padded_eq_cons width n
    have hlength := length_padded hwidth hn
    have hdecimal : ∀ c ∈ padded width n, isDecimal c = true := isDecimal_of_mem_padded
    have hnumber : readNumber 9 (padded width n ++ ['Z'])
        = some (digitsValue 10 (padded width n), ['Z']) :=
      readNumber_append (hpadded ▸ List.cons_ne_nil c more) hdecimal (by omega)
        (.inr fun c hc => Option.some.inj hc ▸ by decide)
    obtain ⟨htake, -⟩ :=
      Text.takeWhile_append_cons hdecimal (show isDecimal 'Z' = false by decide) []
    rw [List.cons_append, readFraction]
    simp only [Option.bind_eq_bind, hnumber, Option.bind_some, htake, digitsValue_padded, hlength]
    rw [List.drop_left' hlength]
    rfl
  unfold fractionChars
  split
  · rename_i hzero
    rw [hzero]
    rfl
  · split
    · rw [hpoint 3 _ (by decide) (by decide) (by omega)]
      congr 2
      omega
    · split
      · rw [hpoint 6 _ (by decide) (by decide) (by omega)]
        congr 2
        omega
      · rw [hpoint 9 _ (by decide) (by decide) h]
        simp

/-! ## The whole -/

/-- A reading goes on from what has been read. -/
theorem some_bind {α β : Type} (a : α) (next : α → Option β) : some a >>= next = next a := rfl

/-- An instant in Coordinated Universal Time is none other there. -/
theorem minusMinutes_zero {t : Instant} (hhour : t.hour ≤ 23) (hminute : t.minute ≤ 59) :
    t.minusMinutes 0 = t := by
  have htotal : (60 * t.hour + t.minute - 0 : Int) % 1440 = 60 * t.hour + t.minute := by omega
  have htime : ((60 * t.hour + t.minute : Int)).toNat = 60 * t.hour + t.minute := by omega
  have hhours : (60 * t.hour + t.minute) / 60 = t.hour := by omega
  have hminutes : (60 * t.hour + t.minute) % 60 = t.minute := by omega
  unfold minusMinutes
  simp only [htotal, htime, hhours, hminutes]
  rw [if_neg (by omega), if_neg (by omega)]

/-- An instant of the years 0 to 9999 is read back from its written form. -/
theorem ofChars?_toChars {t : Instant} (hvalid : t.isValid = true) (hlow : 0 ≤ t.year)
    (hhigh : t.year ≤ 9999) : ofChars? t.toChars = some t := by
  have hfields := hvalid
  simp only [isValid, Bool.and_eq_true, decide_eq_true_eq] at hfields
  obtain ⟨⟨⟨⟨⟨⟨⟨⟨⟨-, -⟩, -⟩, hmonth⟩, -⟩, hday⟩, hhour⟩, hminute⟩, hsecond⟩, hnanosecond⟩ := hfields
  have hmonthLength : Calendar.daysInMonth t.year t.month ≤ 31 := by
    unfold Calendar.daysInMonth
    split
    · split <;> decide
    · split <;> decide
  have hlayout : t.toChars = yearChars t.year ++ '-' :: (padded 2 t.month ++ '-' :: (padded 2 t.day
      ++ 'T' :: (padded 2 t.hour ++ ':' :: (padded 2 t.minute ++ ':' :: (padded 2 t.second
        ++ (fractionChars t.nanosecond ++ ['Z'])))))) := by
    simp [toChars]
  have hzone : readZone (Text.trimStart ['Z']) = some (0, []) := rfl
  -- each part is read in front of the next one
  rw [hlayout, ofChars?, readYear_yearChars hlow hhigh, some_bind]
  dsimp only
  rw [readMark_cons (by decide), some_bind, readPart_padded (by omega), some_bind]
  dsimp only
  rw [readMark_cons (by decide), some_bind, readPart_padded (by omega), some_bind]
  dsimp only
  rw [if_pos (.inl rfl), some_bind, readPart_padded (by omega), some_bind]
  dsimp only
  rw [readMark_cons (by decide), some_bind, readPart_padded (by omega), some_bind]
  dsimp only
  rw [readMark_cons (by decide), some_bind, readPart_padded (by omega), some_bind]
  dsimp only
  rw [readFraction_fractionChars hnanosecond, some_bind]
  dsimp only
  rw [hzone, some_bind]
  show (if t.isValid && (t.minusMinutes 0).isValid then some (t.minusMinutes 0) else none) = some t
  rw [minusMinutes_zero hhour hminute, hvalid]
  rfl

end SourceRepair.Instant
