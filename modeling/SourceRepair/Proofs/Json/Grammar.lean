import SourceRepair.Json.Decode
import SourceRepair.Proofs.Json.Reading
import SourceRepair.Proofs.Text.Cutting
import SourceRepair.Proofs.Text.Digits

/-!
# The texts that write a value

`Writes text value` is the grammar of JSON, rule by rule: any blanks between tokens, any escapes in
strings, any numbers. A text by this grammar is read to its end as the outline of what it writes
(`ofText_of_writes`), and whoever skips it meets no fault (`Writes.skipFault?_eq_none`).

Strings may escape surrogates. A leading one with a trailing one behind it stands for one character;
any other makes a string without a value, which the grammar keeps apart from all strings with one.
-/

namespace SourceRepair.Json

open Text (isDecimal isHex digitsValue signed)

/-! ## The grammar -/

/-- There is nothing but blanks in the text. -/
def IsBlanks (text : List Char) : Prop :=
  ∀ c ∈ text, isBlank c = true

theorem isBlanks_nil : IsBlanks [] :=
  fun _ hc => absurd hc List.not_mem_nil

/-- Four hexadecimal digits write a unit of a string. -/
structure WritesUnit (digits : List Char) (unit : Nat) : Prop where
  length : digits.length = 4
  hex : ∀ c ∈ digits, isHex c = true
  value : digitsValue 16 digits = unit

/-- The unit leads a pair that stands for one character. -/
abbrev IsLeading (unit : Nat) : Prop :=
  0xD800 ≤ unit ∧ unit ≤ 0xDBFF

/-- The unit ends a pair that stands for one character. -/
abbrev IsTrailing (unit : Nat) : Prop :=
  0xDC00 ≤ unit ∧ unit ≤ 0xDFFF

/-- The characters that a backslash and a letter stand for. -/
def shortEscapes : List (Char × Char) :=
  [('"', '"'), ('\\', '\\'), ('/', '/'), ('b', '\x08'), ('f', '\x0c'), ('n', '\n'), ('r', '\r'),
    ('t', '\t')]

/-- The ways to write a character in a string. -/
inductive WritesChar : List Char → Char → Prop where
  | plain {c : Char} (hquote : c ≠ '"') (hbackslash : c ≠ '\\') (hcontrol : 32 ≤ c.toNat) :
      WritesChar [c] c
  | short {letter c : Char} (h : (letter, c) ∈ shortEscapes) : WritesChar ['\\', letter] c
  | unit {digits : List Char} {c : Char} (h : WritesUnit digits c.toNat) :
      WritesChar ('\\' :: 'u' :: digits) c
  | pair {front back : List Char} {leading trailing : Nat} {c : Char}
      (hfront : WritesUnit front leading) (hleading : IsLeading leading)
      (hback : WritesUnit back trailing) (htrailing : IsTrailing trailing)
      (hc : c.toNat = 0x10000 + (leading - 0xD800) * 0x400 + (trailing - 0xDC00)) :
      WritesChar ('\\' :: 'u' :: front ++ '\\' :: 'u' :: back) c

/-- The text starts with a unit that would end a pair. -/
def StartsTrailing (text : List Char) : Prop :=
  ∃ digits unit rest, text = '\\' :: 'u' :: digits ++ rest ∧ WritesUnit digits unit ∧
    IsTrailing unit

/-- What may stand between the quotes of a string. A surrogate without its partner is no character,
and the string then has no value. -/
inductive WritesText : List Char → Option (List Char) → Prop where
  | nil : WritesText [] (some [])
  | char {front back : List Char} {c : Char} {value : Option (List Char)} (hc : WritesChar front c)
      (hmore : WritesText back value) : WritesText (front ++ back) (value.map (c :: ·))
  | lone {digits back : List Char} {unit : Nat} {value : Option (List Char)}
      (hunit : WritesUnit digits unit) (hsurrogate : IsLeading unit ∨ IsTrailing unit)
      (hpartner : IsLeading unit → ¬ StartsTrailing back) (hmore : WritesText back value) :
      WritesText ('\\' :: 'u' :: digits ++ back) none

/-- A row of digits, of which there is one at least. -/
structure IsDigits (text : List Char) : Prop where
  ne_nil : text ≠ []
  decimal : ∀ c ∈ text, isDecimal c = true

/-- The digits in front of the point; a zero in front is the only one. -/
structure IsWhole (text : List Char) : Prop extends IsDigits text where
  leading : text.head? = some '0' → text.length = 1

/-- Nothing, or a point and digits behind it. -/
inductive WritesFraction : List Char → List Char → Prop where
  | absent : WritesFraction [] []
  | present {digits : List Char} (h : IsDigits digits) : WritesFraction ('.' :: digits) digits

/-- Nothing, or a letter, an optional sign, and digits. -/
inductive WritesExponent : List Char → Option Int → Prop where
  | absent : WritesExponent [] none
  | present {letter : Char} {sign digits : List Char} {negative : Bool}
      (hletter : letter = 'e' ∨ letter = 'E')
      (hsign : (sign, negative) ∈ [([], false), (['+'], false), (['-'], true)])
      (h : IsDigits digits) :
      WritesExponent (letter :: sign ++ digits) (some (signed negative (digitsValue 10 digits)))

/-- A number has an optional sign, digits, a fraction and an exponent. -/
inductive WritesNumber : List Char → Numeral → Prop where
  | parts (negative : Bool) {whole fractionText fraction exponentText : List Char}
      {exponent : Option Int} (hwhole : IsWhole whole)
      (hfraction : WritesFraction fractionText fraction)
      (hexponent : WritesExponent exponentText exponent) :
      WritesNumber ((if negative then ['-'] else []) ++ whole ++ fractionText ++ exponentText) {
        negative := negative
        digits := digitsValue 10 (whole ++ fraction)
        exponent := exponent.getD 0 - fraction.length
        plain := fraction.isEmpty && exponent.isNone }

mutual

/-- The texts of a value. -/
inductive Writes : List Char → Outline → Prop where
  | null : Writes "null".toList .null
  | bool (value : Bool) : Writes (toString value).toList (.bool value)
  | number {text : List Char} {n : Numeral} (h : WritesNumber text n) : Writes text (.number n)
  | text {text : List Char} {value : Option (List Char)} (h : WritesText text value) :
      Writes ('"' :: text ++ ['"']) (.text value)
  | emptyArray {blanks : List Char} (h : IsBlanks blanks) :
      Writes ('[' :: blanks ++ [']']) (.array (.close none))
  | array {text : List Char} {items : Items} (h : WritesItems text items) :
      Writes ('[' :: text ++ [']']) (.array items)
  | emptyObject {blanks : List Char} (h : IsBlanks blanks) :
      Writes ('{' :: blanks ++ ['}']) (.object (.close none))
  | object {text : List Char} {members : Members} (h : WritesMembers text members) :
      Writes ('{' :: text ++ ['}']) (.object members)

/-- Elements, of which there is one at least, with commas between them. -/
inductive WritesItems : List Char → Items → Prop where
  | last {before text after : List Char} {item : Outline} (hbefore : IsBlanks before)
      (hitem : Writes text item) (hafter : IsBlanks after) :
      WritesItems (before ++ text ++ after) (.cons item (.close none))
  | cons {before text after more : List Char} {item : Outline} {items : Items}
      (hbefore : IsBlanks before) (hitem : Writes text item) (hafter : IsBlanks after)
      (hmore : WritesItems more items) :
      WritesItems (before ++ text ++ after ++ ',' :: more) (.cons item items)

/-- Members, of which there is one at least, with commas between them. -/
inductive WritesMembers : List Char → Members → Prop where
  | last {text : List Char} {key : Option (List Char)} {value : Outline}
      (h : WritesMember text key value) : WritesMembers text (.cons key value (.close none))
  | cons {text more : List Char} {key : Option (List Char)} {value : Outline} {members : Members}
      (h : WritesMember text key value) (hmore : WritesMembers more members) :
      WritesMembers (text ++ ',' :: more) (.cons key value members)

/-- A key and its value. -/
inductive WritesMember : List Char → Option (List Char) → Outline → Prop where
  | mk {before keyText afterKey beforeValue text after : List Char} {key : Option (List Char)}
      {value : Outline} (hbefore : IsBlanks before) (hkey : WritesText keyText key)
      (hafterKey : IsBlanks afterKey) (hbeforeValue : IsBlanks beforeValue)
      (hvalue : Writes text value) (hafter : IsBlanks after) :
      WritesMember (before ++ '"' :: keyText ++ '"' :: afterKey ++ ':' :: beforeValue ++ text
        ++ after) key value

end

/-! ## Strings -/

variable {digits rest text : List Char} {unit : Nat}

theorem readHex_of_writesUnit (h : WritesUnit digits unit) (rest : List Char) :
    readHex (digits ++ rest) = .ok unit := by
  have htake : (digits ++ rest).take 4 = digits := by
    rw [← h.length]
    exact List.take_left
  have hsize : ¬ Text.utf8Size digits < 4 :=
    Nat.not_lt.mpr (h.length.symm.trans_le (Text.length_le_utf8Size digits))
  unfold readHex
  simp only [htake]
  rw [if_neg hsize, if_pos (List.all_eq_true.mpr h.hex), h.value]

/-- A character is no surrogate. -/
theorem not_surrogate (c : Char) : ¬ IsLeading c.toNat ∧ ¬ IsTrailing c.toNat := by
  have hvalid : c.toNat < 0xD800 ∨ 0xDFFF < c.toNat ∧ c.toNat < 0x110000 := c.valid
  omega

theorem readEscape_unit (h : WritesUnit digits unit) (rest : List Char) :
    readEscape ('u' :: (digits ++ rest)) =
      if 0xD800 ≤ unit ∧ unit ≤ 0xDBFF then readPartner unit rest
      else if 0xDC00 ≤ unit ∧ unit ≤ 0xDFFF then .lone 5
      else .char (Char.ofNat unit) 5 := by
  rw [readEscape, readHex_of_writesUnit h]
  simp only
  rw [← h.length, List.drop_left]

/-- A leading unit is read with the trailing one behind it. -/
theorem readEscape_pair {front back : List Char} {leading trailing : Nat} {c : Char}
    (hfront : WritesUnit front leading) (hleading : IsLeading leading)
    (hback : WritesUnit back trailing) (htrailing : IsTrailing trailing)
    (hc : c.toNat = 0x10000 + (leading - 0xD800) * 0x400 + (trailing - 0xDC00))
    (rest : List Char) :
    readEscape ('u' :: (front ++ '\\' :: 'u' :: (back ++ rest))) = .char c 11 := by
  rw [readEscape_unit hfront, if_pos hleading, readPartner, readHex_of_writesUnit hback]
  simp only
  rw [if_pos htrailing, ← hc, Char.ofNat_toNat]

/-- A character is read from any text that writes it. -/
theorem readString_writesChar {c : Char} (h : WritesChar text c) (rest : List Char) :
    readString (text ++ rest) = (readString rest).cons c := by
  cases h with
  | plain hquote hbackslash hcontrol =>
    rw [List.singleton_append, readString, if_neg hquote, if_neg hbackslash,
      if_neg (Nat.not_lt.mpr hcontrol)]
  | @short letter _ hshort =>
    have hescape : readEscape (letter :: rest) = .char c 1 := by
      simp only [shortEscapes, List.mem_cons, Prod.mk.injEq, List.not_mem_nil, or_false] at hshort
      rcases hshort with ⟨rfl, rfl⟩ | ⟨rfl, rfl⟩ | ⟨rfl, rfl⟩ | ⟨rfl, rfl⟩ | ⟨rfl, rfl⟩ |
        ⟨rfl, rfl⟩ | ⟨rfl, rfl⟩ | ⟨rfl, rfl⟩ <;> rfl
    rw [List.cons_append, readString, if_neg (by decide), if_pos rfl, List.singleton_append,
      hescape]
    rfl
  | @unit digits _ hunit =>
    obtain ⟨hleading, htrailing⟩ := not_surrogate c
    have hescape : readEscape ('u' :: (digits ++ rest)) = .char c 5 := by
      rw [readEscape_unit hunit, if_neg hleading, if_neg htrailing, Char.ofNat_toNat]
    rw [List.cons_append, readString, if_neg (by decide), if_pos rfl, List.cons_append, hescape]
    have hdrop : ('u' :: (digits ++ rest)).drop 5 = rest := by
      rw [List.drop_succ_cons, ← hunit.length, List.drop_left]
    simp only [hdrop]
  | @pair front back leading trailing _ hfront hleading hback htrailing hc =>
    have hescape := readEscape_pair hfront hleading hback htrailing hc rest
    have hdrop : ('u' :: (front ++ '\\' :: 'u' :: (back ++ rest))).drop 11 = rest := by
      have hlength : ('u' :: front ++ '\\' :: 'u' :: back).length = 11 := by
        simp [hfront.length, hback.length]
      rw [← hlength, show 'u' :: (front ++ '\\' :: 'u' :: (back ++ rest))
        = ('u' :: front ++ '\\' :: 'u' :: back) ++ rest by simp, List.drop_left]
    rw [show '\\' :: 'u' :: front ++ '\\' :: 'u' :: back ++ rest
      = '\\' :: 'u' :: (front ++ '\\' :: 'u' :: (back ++ rest)) by simp,
      readString, if_neg (by decide), if_pos rfl, hescape]
    simp only [hdrop]

/-- Behind an escaped unit mark, a string goes on with the digits of a unit. -/
theorem exists_writesUnit_of_writesText {value : Option (List Char)} {more : List Char}
    (h : WritesText text value) (htext : text = '\\' :: 'u' :: more) :
    ∃ digits unit back, WritesUnit digits unit ∧ more = digits ++ back := by
  cases h with
  | nil => exact absurd htext (by simp)
  | lone hunit _ _ _ =>
    simp only [List.cons_append, List.cons.injEq, true_and] at htext
    exact ⟨_, _, _, hunit, htext.symm⟩
  | char hc _ =>
    cases hc with
    | plain _ hbackslash _ => exact absurd (List.cons.inj htext).1 hbackslash
    | short hshort =>
      simp only [List.cons_append, List.nil_append, List.cons.injEq, true_and] at htext
      rw [htext.1] at hshort
      simp [shortEscapes] at hshort
    | unit hunit =>
      simp only [List.cons_append, List.cons.injEq, true_and] at htext
      exact ⟨_, _, _, hunit, htext.symm⟩
    | pair hfront _ _ _ _ =>
      simp only [List.cons_append, List.append_assoc, List.cons.injEq, true_and] at htext
      exact ⟨_, _, _, hfront, htext.symm⟩

/-- A leading surrogate is read as one without its partner if no trailing one follows it in the
string. -/
theorem readPartner_eq_lone {value : Option (List Char)} (h : WritesText text value)
    (hpartner : ¬ StartsTrailing text) (leading : Nat) (rest : List Char) :
    readPartner leading (text ++ '"' :: rest) = .lone 5 := by
  unfold readPartner
  split
  · rename_i hnil
    exact absurd hnil (by simp)
  · rename_i hback
    have := congrArg List.getLast? hback
    cases text with
    | nil => exact absurd hback (by simp)
    | cons c text => simp at hback
  · rename_i more hmore
    obtain ⟨back, rfl, hback⟩ :
        ∃ back, text = '\\' :: 'u' :: back ∧ back ++ '"' :: rest = more := by
      match text, hmore with
      | c :: d :: back, hmore =>
        simp only [List.cons_append, List.cons.injEq] at hmore
        obtain ⟨rfl, rfl, rfl⟩ := hmore
        exact ⟨back, rfl, rfl⟩
      | [c], hmore => simp at hmore
      | [], hmore => simp at hmore
    obtain ⟨digits, unit, back', hunit, rfl⟩ := exists_writesUnit_of_writesText h rfl
    rw [← hback, List.append_assoc, readHex_of_writesUnit hunit]
    simp only
    rw [if_neg]
    exact fun htrailing => hpartner ⟨digits, unit, back', rfl, hunit, htrailing⟩
  · rfl

/-- A string is read up to its closing quote. -/
theorem readString_of_writesText {value : Option (List Char)} (h : WritesText text value)
    (rest : List Char) : readString (text ++ '"' :: rest) = .ok (value, rest) := by
  induction h with
  | nil => rw [List.nil_append, readString, if_pos rfl]
  | char hc _ ih =>
    rw [List.append_assoc, readString_writesChar hc, ih]
    rfl
  | @lone digits back unit value hunit hsurrogate hpartner hmore ih =>
    have hescape : readEscape ('u' :: (digits ++ (back ++ '"' :: rest))) = .lone 5 := by
      rw [readEscape_unit hunit]
      split
      · rename_i hleading
        exact readPartner_eq_lone hmore (hpartner hleading) unit rest
      · rename_i hleading
        rw [if_pos (hsurrogate.resolve_left hleading)]
    have hdrop : ('u' :: (digits ++ (back ++ '"' :: rest))).drop 5 = back ++ '"' :: rest := by
      rw [List.drop_succ_cons, ← hunit.length, List.drop_left]
    rw [show '\\' :: 'u' :: digits ++ back ++ '"' :: rest
      = '\\' :: 'u' :: (digits ++ (back ++ '"' :: rest)) by simp,
      readString, if_neg (by decide), if_pos rfl, hescape]
    simp only [hdrop, ih]
    rfl

/-! ## Numbers -/

/-- What may follow a value: nothing, a blank, a comma, or what closes an array or an object. -/
def FollowsValue (rest : List Char) : Prop :=
  ∀ c ∈ rest.head?, isBlank c = true ∨ c ∈ [',', ']', '}']

/-- What follows a value does not go on with a number. -/
theorem FollowsValue.head_ne (h : FollowsValue rest) :
    ∀ c ∈ rest.head?, isDecimal c = false ∧ c ∉ ['.', 'e', 'E'] := by
  intro c hc
  have hmem : c ∈ [' ', '\n', '\t', '\r', ',', ']', '}'] := by
    have hfollows := h c hc
    simp only [isBlank, Bool.or_eq_true, beq_iff_eq] at hfollows
    simp only [List.mem_cons, List.not_mem_nil, or_false] at hfollows ⊢
    tauto
  revert hmem
  clear hc
  simp only [List.mem_cons, List.not_mem_nil, or_false]
  rintro (rfl | rfl | rfl | rfl | rfl | rfl | rfl) <;> decide

/-- Digits are read up to what is none. -/
theorem readDigits_append (h : IsDigits digits) (hrest : ∀ c ∈ rest.head?, isDecimal c = false) :
    readDigits (digits ++ rest) = .ok (digits, rest) := by
  have hsplit : (digits ++ rest).takeWhile isDecimal = digits ∧
      (digits ++ rest).dropWhile isDecimal = rest := by
    cases rest with
    | nil =>
      rw [List.append_nil, List.takeWhile_eq_self_iff.mpr h.decimal,
        List.dropWhile_eq_nil_iff.mpr h.decimal]
      exact ⟨rfl, rfl⟩
    | cons c more => exact Text.takeWhile_append_cons h.decimal (hrest c rfl) more
  obtain ⟨d, more, rfl⟩ := List.exists_cons_of_ne_nil h.ne_nil
  rw [readDigits, hsplit.1, hsplit.2]

theorem readFraction_append {fraction : List Char} (h : WritesFraction text fraction)
    (hrest : ∀ c ∈ rest.head?, isDecimal c = false ∧ c ≠ '.') :
    readFraction (text ++ rest) = .ok (fraction, rest) := by
  cases h with
  | absent =>
    rw [List.nil_append]
    unfold readFraction
    split
    · exact absurd rfl (hrest '.' rfl).2
    · rfl
  | present hdigits => exact readDigits_append hdigits fun c hc => (hrest c hc).1

theorem readExponent_append {exponent : Option Int} (h : WritesExponent text exponent)
    (hrest : ∀ c ∈ rest.head?, isDecimal c = false ∧ c ∉ ['.', 'e', 'E']) :
    readExponent (text ++ rest) = .ok (exponent, rest) := by
  cases h with
  | absent =>
    cases rest with
    | nil => rfl
    | cons c more =>
      have hne := (hrest c rfl).2
      rw [List.nil_append, readExponent, if_neg (by simp_all)]
  | @present letter sign digits negative hletter hsign hdigits =>
    have hsplit : Text.splitSign (sign ++ (digits ++ rest)) = (negative, digits ++ rest) := by
      simp only [List.mem_cons, Prod.mk.injEq, List.not_mem_nil, or_false] at hsign
      rcases hsign with ⟨rfl, rfl⟩ | ⟨rfl, rfl⟩ | ⟨rfl, rfl⟩
      · -- the digits are not mistaken for a sign
        obtain ⟨d, more, rfl⟩ := List.exists_cons_of_ne_nil hdigits.ne_nil
        have hd := hdigits.decimal d List.mem_cons_self
        rw [List.nil_append, List.cons_append]
        unfold Text.splitSign
        split
        · rename_i heq
          rw [(List.cons.inj heq).1] at hd
          exact absurd hd (by decide)
        · rename_i heq
          rw [(List.cons.inj heq).1] at hd
          exact absurd hd (by decide)
        · rfl
      · rfl
      · rfl
    rw [List.cons_append, List.cons_append, List.append_assoc, readExponent, if_pos hletter, hsplit]
    simp only
    rw [readDigits_append hdigits fun c hc => (hrest c hc).1]

/-- A number behind its sign is read from any text that writes it. -/
theorem readNumber_append (negative : Bool) {whole fractionText fraction exponentText : List Char}
    {exponent : Option Int} (hwhole : IsWhole whole)
    (hfraction : WritesFraction fractionText fraction)
    (hexponent : WritesExponent exponentText exponent) (hrest : FollowsValue rest) :
    readNumber negative (whole ++ (fractionText ++ (exponentText ++ rest))) = .ok ({
        negative := negative
        digits := digitsValue 10 (whole ++ fraction)
        exponent := exponent.getD 0 - fraction.length
        plain := fraction.isEmpty && exponent.isNone }, rest) := by
  have hafterFraction : ∀ c ∈ (exponentText ++ rest).head?, isDecimal c = false ∧ c ≠ '.' := by
    cases hexponent with
    | absent =>
      intro c hc
      have hne := hrest.head_ne c hc
      exact ⟨hne.1, fun heq => hne.2 (heq ▸ List.mem_cons_self)⟩
    | present hletter _ _ =>
      intro c hc
      obtain rfl := Option.some.inj hc
      rcases hletter with rfl | rfl <;> decide
  have hafterWhole : ∀ c ∈ (fractionText ++ (exponentText ++ rest)).head?,
      isDecimal c = false := by
    cases hfraction with
    | absent => exact fun c hc => (hafterFraction c hc).1
    | present _ =>
      intro c hc
      obtain rfl := Option.some.inj hc
      decide
  have hleading : ¬ (whole.head? = some '0' ∧ 1 < whole.length) := fun h => by
    have := hwhole.leading h.1
    omega
  unfold readNumber
  rw [readDigits_append hwhole.toIsDigits hafterWhole]
  simp only [bind, Except.bind]
  rw [if_neg hleading]
  simp only [pure, Except.pure, readFraction_append hfraction hafterFraction,
    readExponent_append hexponent hrest.head_ne]

/-! ## Values -/

/-- A value starts with a token that closes no array. -/
theorem Writes.exists_eq_cons {value : Outline} (h : Writes text value) :
    ∃ c tail, text = c :: tail ∧ isBlank c = false ∧ c ≠ ']' := by
  cases h with
  | null => exact ⟨'n', _, rfl, by decide, by decide⟩
  | bool value =>
    cases value with
    | true => exact ⟨'t', _, rfl, by decide, by decide⟩
    | false => exact ⟨'f', _, rfl, by decide, by decide⟩
  | text _ => exact ⟨'"', _, rfl, by decide, by decide⟩
  | emptyArray _ => exact ⟨'[', _, rfl, by decide, by decide⟩
  | array _ => exact ⟨'[', _, rfl, by decide, by decide⟩
  | emptyObject _ => exact ⟨'{', _, rfl, by decide, by decide⟩
  | object _ => exact ⟨'{', _, rfl, by decide, by decide⟩
  | number hnumber =>
    cases hnumber with
    | @parts negative whole _ _ _ _ hwhole _ _ =>
      cases negative with
      | true => exact ⟨'-', _, rfl, by decide, by decide⟩
      | false =>
        obtain ⟨d, more, rfl⟩ := List.exists_cons_of_ne_nil hwhole.ne_nil
        have hd := hwhole.decimal d List.mem_cons_self
        have hne : ∀ c, isDecimal c = false → d ≠ c := by
          rintro c hc rfl
          rw [hd] at hc
          exact absurd hc (by decide)
        refine ⟨d, _, rfl, ?_, hne ']' (by decide)⟩
        simp [isBlank, hne ' ' (by decide), hne '\n' (by decide), hne '\t' (by decide),
          hne '\r' (by decide)]

/-- Blanks in front of a value are skipped. -/
theorem Writes.skipBlanks_append {value : Outline} (h : Writes text value) {blanks : List Char}
    (hblanks : IsBlanks blanks) (rest : List Char) :
    skipBlanks (blanks ++ (text ++ rest)) = text ++ rest := by
  obtain ⟨c, tail, rfl, hc, -⟩ := h.exists_eq_cons
  rw [Json.skipBlanks_append hblanks, List.cons_append, skipBlanks_cons hc]

/-- Blanks in front of a mark are skipped. -/
theorem skipBlanks_mark {blanks : List Char} (hblanks : IsBlanks blanks) {mark : Char}
    (hmark : isBlank mark = false) (rest : List Char) :
    skipBlanks (blanks ++ mark :: rest) = mark :: rest := by
  rw [skipBlanks_append hblanks, skipBlanks_cons hmark]

/-- Blanks and a mark behind them may follow a value. -/
theorem followsValue_blanks {blanks : List Char} (hblanks : IsBlanks blanks) {mark : Char}
    (hmark : mark ∈ [',', ']', '}']) (rest : List Char) :
    FollowsValue (blanks ++ mark :: rest) := by
  intro c hc
  cases blanks with
  | nil =>
    obtain rfl := Option.some.inj hc
    exact .inr hmark
  | cons d more =>
    obtain rfl := Option.some.inj hc
    exact .inl (hblanks _ List.mem_cons_self)

/-- The text of some elements, with the bracket behind them: the first element is a value, and the
others follow it. -/
def ReadsItems (text : List Char) (items : Items) (rest : List Char) : Prop :=
  ∃ c tail item more afterItem, skipBlanks text = c :: tail ∧ c ≠ ']' ∧ items = .cons item more ∧
    Yields (readValue text) item afterItem ∧ Yields (readItems false afterItem) more rest

/-- The text of some members, with the brace behind them. -/
def ReadsMembers (text : List Char) (members : Members) (rest : List Char) : Prop :=
  ∃ tail, skipBlanks text = '"' :: tail ∧
    ∀ {around : List Char} (hlt : tail.length < around.length),
      Yields (readMember tail around hlt) members rest

mutual

/-- A value is read from any text that writes it. -/
theorem yields_of_writes : ∀ {written text rest : List Char} {value : Outline},
    Writes written value → skipBlanks text = written ++ rest → FollowsValue rest →
      Yields (readValue text) value rest
  | _, text, rest, _, .null, htext, _ => by
    have htext : skipBlanks text = 'n' :: ("ull".toList ++ rest) := htext
    have hword : readWord "ull".toList ("ull".toList ++ rest) = .ok rest := rfl
    exact yields_readValue_word (by simp) htext hword
  | _, text, rest, _, .bool true, htext, _ => by
    have htext : skipBlanks text = 't' :: ("rue".toList ++ rest) := htext
    have hword : readWord "rue".toList ("rue".toList ++ rest) = .ok rest := rfl
    exact yields_readValue_word (by simp) htext hword
  | _, text, rest, _, .bool false, htext, _ => by
    have htext : skipBlanks text = 'f' :: ("alse".toList ++ rest) := htext
    have hword : readWord "alse".toList ("alse".toList ++ rest) = .ok rest := rfl
    exact yields_readValue_word (by simp) htext hword
  | _, _, _, _, .number (.parts negative hwhole hfraction hexponent), htext, hrest => by
    have hread := readNumber_append negative hwhole hfraction hexponent hrest
    simp only [List.append_assoc] at htext
    cases negative with
    | true => exact yields_readValue_negative htext hread
    | false =>
      obtain ⟨d, more, rfl⟩ := List.exists_cons_of_ne_nil hwhole.ne_nil
      exact yields_readValue_digits (hwhole.decimal d List.mem_cons_self) htext hread
  | _, _, rest, _, .text h, htext, _ => by
    rw [List.cons_append, List.cons_append, List.append_assoc] at htext
    exact yields_readValue_string htext (readString_of_writesText h rest)
  | _, _, rest, _, .emptyArray hblanks, htext, _ => by
    rw [List.cons_append, List.cons_append, List.append_assoc] at htext
    exact yields_readValue_array htext
      (yields_readItems_close (skipBlanks_mark hblanks (by decide) rest))
  | _, _, rest, _, .array h, htext, _ => by
    rw [List.cons_append, List.cons_append, List.append_assoc] at htext
    obtain ⟨c, tail, item, more, afterItem, hfirst, hc, rfl, hitem, hmore⟩ :=
      readsItems_of_writes h rest
    exact yields_readValue_array htext (yields_readItems_first hfirst hc hitem hmore)
  | _, _, rest, _, .emptyObject hblanks, htext, _ => by
    rw [List.cons_append, List.cons_append, List.append_assoc] at htext
    exact yields_readValue_object htext
      (yields_readMembers_close (skipBlanks_mark hblanks (by decide) rest))
  | _, _, rest, _, .object h, htext, _ => by
    rw [List.cons_append, List.cons_append, List.append_assoc] at htext
    obtain ⟨tail, hfirst, hmembers⟩ := readsMembers_of_writes h rest
    exact yields_readValue_object htext (yields_readMembers_first hfirst hmembers)

/-- Elements are read from any text that writes them, up to the bracket. -/
theorem readsItems_of_writes : ∀ {text : List Char} {items : Items}, WritesItems text items →
    ∀ rest, ReadsItems (text ++ ']' :: rest) items rest
  | _, _, @WritesItems.last before text after item hbefore hitem hafter, rest => by
    obtain ⟨c, tail, htext, -, hc⟩ := hitem.exists_eq_cons
    have hlayout : before ++ text ++ after ++ ']' :: rest
        = before ++ (text ++ (after ++ ']' :: rest)) := by simp
    have hstart := hitem.skipBlanks_append hbefore (after ++ ']' :: rest)
    have hvalue := yields_of_writes hitem hstart (followsValue_blanks hafter (by simp) rest)
    rw [hlayout]
    exact ⟨c, tail ++ (after ++ ']' :: rest), item, _, _, by rw [hstart, htext, List.cons_append],
      hc, rfl, hvalue, yields_readItems_close (skipBlanks_mark hafter (by decide) rest)⟩
  | _, _, @WritesItems.cons before text after more item items hbefore hitem hafter hmore, rest => by
    obtain ⟨c, tail, htext, -, hc⟩ := hitem.exists_eq_cons
    have hlayout : before ++ text ++ after ++ ',' :: more ++ ']' :: rest
        = before ++ (text ++ (after ++ ',' :: (more ++ ']' :: rest))) := by simp
    have hstart := hitem.skipBlanks_append hbefore (after ++ ',' :: (more ++ ']' :: rest))
    have hvalue := yields_of_writes hitem hstart
      (followsValue_blanks hafter (by simp) (more ++ ']' :: rest))
    obtain ⟨c', tail', item', more', afterItem, hnext, hc', rfl, hitem', hmore'⟩ :=
      readsItems_of_writes hmore rest
    rw [hlayout]
    exact ⟨c, tail ++ (after ++ ',' :: (more ++ ']' :: rest)), item, _, _,
      by rw [hstart, htext, List.cons_append], hc, rfl, hvalue,
      yields_readItems_next (skipBlanks_mark hafter (by decide) _) hnext hc' hitem' hmore'⟩

/-- Members are read from any text that writes them, up to the brace. -/
theorem readsMembers_of_writes : ∀ {text : List Char} {members : Members},
    WritesMembers text members → ∀ rest, ReadsMembers (text ++ '}' :: rest) members rest
  | _, _, .last h, rest => by
    obtain ⟨tail, after, hblanks, hstart, hread⟩ := readsMember_of_writes h '}' (by simp) rest
    exact ⟨tail, hstart,
      hread (yields_readMembers_close (skipBlanks_mark hblanks (by decide) rest))⟩
  | _, _, @WritesMembers.cons text more key value members h hmore, rest => by
    obtain ⟨tail, after, hblanks, hstart, hread⟩ :=
      readsMember_of_writes h ',' (by simp) (more ++ '}' :: rest)
    obtain ⟨tail', hstart', hread'⟩ := readsMembers_of_writes hmore rest
    rw [List.append_assoc, List.cons_append]
    exact ⟨tail, hstart, hread (yields_readMembers_next (skipBlanks_mark hblanks (by decide) _)
      hstart' hread')⟩

/-- A key and its value are read from any text that writes them, up to the mark behind them. -/
theorem readsMember_of_writes : ∀ {text : List Char} {key : Option (List Char)} {value : Outline},
    WritesMember text key value → ∀ (mark : Char), mark ∈ [',', ']', '}'] → ∀ rest,
    ∃ tail after, IsBlanks after ∧ skipBlanks (text ++ mark :: rest) = '"' :: tail ∧
      ∀ {members : Members} {rest' : List Char},
        Yields (readMembers false (after ++ mark :: rest)) members rest' →
        ∀ {around : List Char} (hlt : tail.length < around.length),
          Yields (readMember tail around hlt) (.cons key value members) rest'
  | _, _, _, @WritesMember.mk before keyText afterKey beforeValue text after key value hbefore hkey
      hafterKey hbeforeValue hvalue hafter, mark, hmark, rest => by
    have hlayout : before ++ '"' :: keyText ++ '"' :: afterKey ++ ':' :: beforeValue ++ text
        ++ after ++ mark :: rest = before ++ '"' :: (keyText ++ '"' :: (afterKey
          ++ ':' :: (beforeValue ++ (text ++ (after ++ mark :: rest))))) := by simp
    have hread := yields_of_writes hvalue
      (hvalue.skipBlanks_append hbeforeValue (after ++ mark :: rest))
      (followsValue_blanks hafter hmark rest)
    rw [hlayout]
    refine ⟨_, after, hafter, skipBlanks_mark hbefore (by decide) _, fun hmembers around hlt => ?_⟩
    exact yields_readMember hlt (readString_of_writesText hkey _)
      (skipBlanks_mark hafterKey (by decide) _) hread hmembers

end

/-- A text that writes a value is read as the outline of the value, to its end. -/
theorem ofText_of_writes {value : Outline} (h : Writes text value) :
    Document.ofText text = ⟨value, false⟩ := by
  have hstart := h.skipBlanks_append isBlanks_nil []
  rw [List.nil_append, List.append_nil] at hstart
  have hyields : Yields (readValue text) value [] :=
    yields_of_writes h (by rw [hstart, List.append_nil]) (by simp [FollowsValue])
  obtain ⟨r, hread, hr⟩ := hyields.eq_some
  rw [Document.ofText, hread]
  simp only [hr]
  rfl

/-! ## Skipping -/

mutual

/-- Whoever skips a value meets no fault in it. -/
theorem Writes.skipFault?_eq_none : ∀ {text : List Char} {value : Outline}, Writes text value →
    value.skipFault? = none
  | _, _, .null => rfl
  | _, _, .bool _ => rfl
  | _, _, .number _ => rfl
  | _, _, .text _ => rfl
  | _, _, .emptyArray _ => rfl
  | _, _, .array h => h.skipFault?_eq_none
  | _, _, .emptyObject _ => rfl
  | _, _, .object h => h.skipFault?_eq_none

theorem WritesItems.skipFault?_eq_none : ∀ {text : List Char} {items : Items},
    WritesItems text items → items.skipFault? = none
  | _, _, .last _ hitem _ => by
    rw [Items.skipFault?, hitem.skipFault?_eq_none]
    rfl
  | _, _, .cons _ hitem _ hmore => by
    rw [Items.skipFault?, hitem.skipFault?_eq_none, hmore.skipFault?_eq_none]
    rfl

theorem WritesMembers.skipFault?_eq_none : ∀ {text : List Char} {members : Members},
    WritesMembers text members → members.skipFault? = none
  | _, _, .last h => by
    rw [Members.skipFault?, h.skipFault?_eq_none]
    rfl
  | _, _, .cons h hmore => by
    rw [Members.skipFault?, h.skipFault?_eq_none, hmore.skipFault?_eq_none]
    rfl

theorem WritesMember.skipFault?_eq_none : ∀ {text : List Char} {key : Option (List Char)}
    {value : Outline}, WritesMember text key value → value.skipFault? = none
  | _, _, _, .mk _ _ _ _ hvalue _ => hvalue.skipFault?_eq_none

end

end SourceRepair.Json
