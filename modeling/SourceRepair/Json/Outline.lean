import SourceRepair.Text.Basic
import SourceRepair.Text.Digits

/-!
# Reading JSON text as far as it goes

A text that should be JSON is read into an `Outline`: the values it holds, and the place where it
stops being JSON, if there is one. What a reader of the data then complains about first is decided
from the outline in the order of the text: a value of the wrong kind counts before a mistake in the
JSON that comes after it.

Some mistakes only matter to a reader that wants the value: one that skips it does not mind an
escaped surrogate without its partner, and sees a number that breaks off as malformed rather than
truncated. A `Break` therefore holds both views.
-/

namespace SourceRepair.Json

open Text (isDecimal isHex digitsValue splitSign signed)

/-- What is wrong with a text. -/
inductive Fault where
  /-- The text ends too early. -/
  | truncated
  /-- The text is not JSON. -/
  | malformed
  /-- The text is JSON so far, and not of the form expected. -/
  | mismatched
  deriving DecidableEq, Repr, Inhabited

/-- A place where a text stops being JSON, as a reader sees it that wants the value there, and as
one does that skips it. -/
structure Break where
  decoding : Fault
  skipping : Fault
  deriving DecidableEq, Repr, Inhabited

namespace Break

/-- The text ends too early for either reader. -/
def truncated : Break := ⟨.truncated, .truncated⟩

/-- The text is not JSON to either reader. -/
def malformed : Break := ⟨.malformed, .malformed⟩

/-- The break in a number that lacks a digit: in front of `rest`, or at the end of the text. -/
def missingDigit (rest : List Char) : Break :=
  if rest.isEmpty then ⟨.truncated, .malformed⟩ else malformed

end Break

/-- A number as it is written: its sign, its digits without the point, the power of ten that they
are to be multiplied by, and whether it has neither point nor exponent. -/
structure Numeral where
  negative : Bool
  digits : Nat
  exponent : Int
  plain : Bool
  deriving DecidableEq, Repr, Inhabited

mutual

/-- What a text holds up to the place where it stops being JSON. -/
inductive Outline where
  | null
  | bool (value : Bool)
  | number (value : Numeral)
  /-- A string; it has no value if it escapes a surrogate without its partner. -/
  | text (value : Option (List Char))
  | array (items : Items)
  | object (members : Members)
  | broken (stop : Break)

/-- The elements of an array, and the break that ends them if the bracket is missing. -/
inductive Items where
  | close (stop : Option Break)
  | cons (item : Outline) (rest : Items)

/-- The members of an object, and the break that ends them if the brace is missing. -/
inductive Members where
  | close (stop : Option Break)
  | cons (key : Option (List Char)) (value : Outline) (rest : Members)

end

/-! ## Words, numbers and strings -/

/-- The characters that may stand between tokens. -/
def isBlank (c : Char) : Bool :=
  c == ' ' || c == '\n' || c == '\t' || c == '\r'

/-- The text from its first token on. -/
def skipBlanks (text : List Char) : List Char :=
  text.dropWhile isBlank

/-- Reads the remaining letters of a word; the result is the rest of the text. -/
def readWord : List Char → List Char → Except Break (List Char)
  | [], rest => .ok rest
  | _ :: _, [] => .error .truncated
  | expected :: word, c :: rest =>
    if c = expected then readWord word rest else .error .malformed

/-- The digits at the front, of which there has to be one. -/
def readDigits (text : List Char) : Except Break (List Char × List Char) :=
  match text.takeWhile isDecimal with
  | [] => .error (.missingDigit text)
  | digits => .ok (digits, text.dropWhile isDecimal)

/-- The digits after a decimal point, if there is one. -/
def readFraction : List Char → Except Break (List Char × List Char)
  | '.' :: rest => readDigits rest
  | rest => .ok ([], rest)

/-- The exponent, if there is one. -/
def readExponent : List Char → Except Break (Option Int × List Char)
  | [] => .ok (none, [])
  | c :: rest =>
    if c = 'e' ∨ c = 'E' then
      match readDigits (splitSign rest).2 with
      | .error stop => .error stop
      | .ok (digits, after) =>
        .ok (some (signed (splitSign rest).1 (digitsValue 10 digits)), after)
    else .ok (none, c :: rest)

/-- Reads a number without its sign. A zero in front is the only digit before the point. -/
def readNumber (negative : Bool) (text : List Char) : Except Break (Numeral × List Char) := do
  let (whole, rest) ← readDigits text
  if whole.head? = some '0' ∧ 1 < whole.length then throw .malformed
  let (fraction, rest) ← readFraction rest
  let (exponent, rest) ← readExponent rest
  let numeral : Numeral := {
    negative := negative
    digits := digitsValue 10 (whole ++ fraction)
    exponent := exponent.getD 0 - fraction.length
    plain := fraction.isEmpty && exponent.isNone }
  return (numeral, rest)

/-- The value of the four hexadecimal digits at the front. -/
def readHex (text : List Char) : Except Break Nat :=
  let digits := text.take 4
  if Text.utf8Size digits < 4 then .error .truncated
  else if digits.all isHex then .ok (digitsValue 16 digits)
  else .error .malformed

/-- What a backslash and the text after it stand for. -/
inductive Escape where
  /-- A character, written in the given number of characters after the backslash. -/
  | char (value : Char) (length : Nat)
  /-- A surrogate without its partner. -/
  | lone (length : Nat)
  | broken (stop : Break)
  deriving Repr

/-- What a leading surrogate stands for that `rest` follows. -/
def readPartner (high : Nat) : List Char → Escape
  | [] => .broken .truncated
  | ['\\'] => .broken .truncated
  | '\\' :: 'u' :: rest =>
    match readHex rest with
    | .error stop => .broken stop
    | .ok low =>
      if 0xDC00 ≤ low ∧ low ≤ 0xDFFF then
        .char (Char.ofNat (0x10000 + (high - 0xD800) * 0x400 + (low - 0xDC00))) 11
      else .lone 5
  | _ => .lone 5

/-- Reads what follows a backslash. -/
def readEscape : List Char → Escape
  | [] => .broken .truncated
  | '"' :: _ => .char '"' 1
  | '\\' :: _ => .char '\\' 1
  | '/' :: _ => .char '/' 1
  | 'b' :: _ => .char '\x08' 1
  | 'f' :: _ => .char '\x0c' 1
  | 'n' :: _ => .char '\n' 1
  | 'r' :: _ => .char '\r' 1
  | 't' :: _ => .char '\t' 1
  | 'u' :: rest =>
    match readHex rest with
    | .error stop => .broken stop
    | .ok code =>
      if 0xD800 ≤ code ∧ code ≤ 0xDBFF then readPartner code (rest.drop 4)
      else if 0xDC00 ≤ code ∧ code ≤ 0xDFFF then .lone 5
      else .char (Char.ofNat code) 5
  | _ => .broken .malformed

/-- The text of a string, from the quote that opens it, and what follows the one that closes it; it
has no text if it holds a surrogate without its partner. -/
abbrev StringRead := Except Break (Option (List Char) × List Char)

/-- Puts a character in front of a string. -/
def StringRead.cons (c : Char) : StringRead → StringRead
  | .error stop => .error stop
  | .ok (value, rest) => .ok (value.map (c :: ·), rest)

/-- Marks a string as one without a value. -/
def StringRead.void : StringRead → StringRead
  | .error stop => .error ⟨.malformed, stop.skipping⟩
  | .ok (_, rest) => .ok (none, rest)

/-- Reads a string after its opening quote. -/
def readString (text : List Char) : StringRead :=
  match text with
  | [] => .error .truncated
  | c :: rest =>
    if c = '"' then .ok (some [], rest)
    else if c = '\\' then
      match readEscape rest with
      | .broken stop => .error stop
      | .char value length => (readString (rest.drop length)).cons value
      | .lone length => (readString (rest.drop length)).void
    else if c.toNat < 32 then .error .malformed
    else (readString rest).cons c
termination_by text.length
decreasing_by
  all_goals
    simp only [List.length_cons, List.length_drop]
    omega

/-! ## Readers move on

Whatever follows a token is shorter than the text the token was read from. -/

/-- Skipping blanks does not lengthen a text. -/
theorem skipBlanks_length_le (text : List Char) : (skipBlanks text).length ≤ text.length :=
  (List.dropWhile_suffix isBlank).length_le

/-- What follows a word is no longer than the text. -/
theorem readWord_length_le {word text rest : List Char} (h : readWord word text = .ok rest) :
    rest.length ≤ text.length := by
  induction word generalizing text with
  | nil => simp only [readWord, Except.ok.injEq] at h; simp [h]
  | cons expected word ih =>
    cases text with
    | nil => simp [readWord] at h
    | cons c text =>
      unfold readWord at h
      split at h
      · exact Nat.le_succ_of_le (ih h)
      · simp at h

/-- A row of digits has at least one digit. -/
theorem readDigits_length_lt {text digits rest : List Char}
    (h : readDigits text = .ok (digits, rest)) : rest.length < text.length := by
  unfold readDigits at h
  split at h
  · simp at h
  · rename_i hne
    simp only [Except.ok.injEq, Prod.mk.injEq] at h
    obtain ⟨rfl, rfl⟩ := h
    have hsum := congrArg List.length (List.takeWhile_append_dropWhile (p := isDecimal) (l := text))
    have : (text.takeWhile isDecimal).length ≠ 0 := by
      intro h0
      exact hne (List.eq_nil_of_length_eq_zero h0)
    simp only [List.length_append] at hsum
    omega

/-- What follows a fraction is no longer than the text. -/
theorem readFraction_length_le {text digits rest : List Char}
    (h : readFraction text = .ok (digits, rest)) : rest.length ≤ text.length := by
  unfold readFraction at h
  split at h
  · have := readDigits_length_lt h
    simp only [List.length_cons]
    omega
  · simp_all

/-- What follows a sign is no longer than the text. -/
theorem splitSign_length_le (text : List Char) : (splitSign text).2.length ≤ text.length := by
  unfold splitSign
  split <;> simp

/-- What follows an exponent is no longer than the text. -/
theorem readExponent_length_le {text rest : List Char} {exponent : Option Int}
    (h : readExponent text = .ok (exponent, rest)) : rest.length ≤ text.length := by
  cases text with
  | nil => simp_all [readExponent]
  | cons c tail =>
    simp only [readExponent] at h
    split at h
    · split at h
      · simp at h
      · rename_i digits after hd
        simp only [Except.ok.injEq, Prod.mk.injEq] at h
        obtain ⟨-, rfl⟩ := h
        have h₁ := readDigits_length_lt hd
        have h₂ := splitSign_length_le tail
        simp only [List.length_cons]
        omega
    · simp_all

/-- A number has at least one digit. -/
theorem readNumber_length_lt {negative : Bool} {text rest : List Char} {numeral : Numeral}
    (h : readNumber negative text = .ok (numeral, rest)) : rest.length < text.length := by
  unfold readNumber at h
  cases hw : readDigits text with
  | error stop => simp [hw, bind, Except.bind] at h
  | ok whole =>
    obtain ⟨whole, afterWhole⟩ := whole
    simp only [hw, bind, Except.bind, throw, throwThe, MonadExceptOf.throw, pure, Except.pure] at h
    have h₁ := readDigits_length_lt hw
    split at h
    · simp at h
    · cases hf : readFraction afterWhole with
      | error stop => simp [hf] at h
      | ok fraction =>
        obtain ⟨fraction, afterFraction⟩ := fraction
        have h₂ := readFraction_length_le hf
        cases he : readExponent afterFraction with
        | error stop => simp [hf, he] at h
        | ok exponent =>
          obtain ⟨exponent, afterExponent⟩ := exponent
          have h₃ := readExponent_length_le he
          simp only [hf, he, Except.ok.injEq, Prod.mk.injEq] at h
          obtain ⟨-, rfl⟩ := h
          omega

/-- A string has a closing quote. -/
theorem readString_length_lt {text rest : List Char} {value : Option (List Char)}
    (h : readString text = .ok (value, rest)) : rest.length < text.length := by
  induction hn : text.length using Nat.strongRecOn generalizing text value with
  | _ n ih =>
    subst hn
    have void_eq {s : StringRead} (hs : s.void = .ok (value, rest)) :
        ∃ v, s = .ok (v, rest) := by
      cases s with
      | error stop => simp [StringRead.void] at hs
      | ok p =>
        simp only [StringRead.void, Except.ok.injEq, Prod.mk.injEq] at hs
        exact ⟨p.1, by simp [← hs.2]⟩
    have cons_eq {c : Char} {s : StringRead} (hs : s.cons c = .ok (value, rest)) :
        ∃ v, s = .ok (v, rest) := by
      cases s with
      | error stop => simp [StringRead.cons] at hs
      | ok p =>
        simp only [StringRead.cons, Except.ok.injEq, Prod.mk.injEq] at hs
        exact ⟨p.1, by simp [← hs.2]⟩
    rw [readString.eq_def] at h
    split at h
    · simp at h
    · rename_i c tail
      have step (k : Nat) {s : StringRead} (hs : s = readString (tail.drop k))
          (hv : ∃ v, s = .ok (v, rest)) : rest.length < (c :: tail).length := by
        obtain ⟨v, hv⟩ := hv
        have := ih _ (by simp only [List.length_drop, List.length_cons]; omega) (hs ▸ hv) rfl
        simp only [List.length_drop, List.length_cons] at this ⊢
        omega
      split at h
      · simp only [Except.ok.injEq, Prod.mk.injEq] at h
        simp [← h.2]
      · split at h
        · split at h
          · simp at h
          · rename_i length _
            exact step length rfl (cons_eq h)
          · rename_i length _
            exact step length rfl (void_eq h)
        · split at h
          · simp at h
          · exact step 0 rfl (cons_eq h)

/-! ## Values -/

/-- A text shorter than `text`. -/
abbrev Shorter (text : List Char) : Type :=
  { rest : List Char // rest.length < text.length }

/-- A word such as `null`, of which the first letter has been read. -/
def wordOutline (value : Outline) (word tail text : List Char)
    (h : tail.length < text.length) : Outline × Option (Shorter text) :=
  match hw : readWord word tail with
  | .error stop => (.broken stop, none)
  | .ok rest => (value, some ⟨rest, Nat.lt_of_le_of_lt (readWord_length_le hw) h⟩)

/-- A number, of which the sign has been read. -/
def numberOutline (negative : Bool) (tail text : List Char) (h : tail.length ≤ text.length) :
    Outline × Option (Shorter text) :=
  match hn : readNumber negative tail with
  | .error stop => (.broken stop, none)
  | .ok (numeral, rest) =>
    (.number numeral, some ⟨rest, Nat.lt_of_lt_of_le (readNumber_length_lt hn) h⟩)

/-- A string, of which the opening quote has been read. -/
def stringOutline (tail text : List Char) (h : tail.length < text.length) :
    Outline × Option (Shorter text) :=
  match hs : readString tail with
  | .error stop => (.broken stop, none)
  | .ok (value, rest) =>
    (.text value, some ⟨rest, Nat.lt_trans (readString_length_lt hs) h⟩)

/-- Widens the text that a rest is shorter than. -/
def Shorter.widen {short long : List Char} (h : short.length ≤ long.length) (r : Shorter short) :
    Shorter long :=
  ⟨r.val, Nat.lt_of_lt_of_le r.property h⟩

mutual

/-- Reads one value; there is no rest if the text breaks inside it. -/
def readValue (text : List Char) : Outline × Option (Shorter text) :=
  match h : skipBlanks text with
  | [] => (.broken .truncated, none)
  | c :: tail =>
    have hlt : tail.length < text.length := by
      have := skipBlanks_length_le text
      simp only [h, List.length_cons] at this
      omega
    if c = '[' then
      let (items, rest) := readItems true tail
      (.array items, rest.map (.widen (Nat.le_of_lt hlt)))
    else if c = '{' then
      let (members, rest) := readMembers true tail
      (.object members, rest.map (.widen (Nat.le_of_lt hlt)))
    else if c = '"' then stringOutline tail text hlt
    else if c = 'n' then wordOutline .null "ull".toList tail text hlt
    else if c = 't' then wordOutline (.bool true) "rue".toList tail text hlt
    else if c = 'f' then wordOutline (.bool false) "alse".toList tail text hlt
    else if c = '-' then numberOutline true tail text (Nat.le_of_lt hlt)
    else if isDecimal c then
      numberOutline false (c :: tail) text (by simp only [List.length_cons]; omega)
    else (.broken .malformed, none)
termination_by (text.length, 0)

/-- Reads the elements of an array up to its closing bracket. -/
def readItems (first : Bool) (text : List Char) : Items × Option (Shorter text) :=
  match h : skipBlanks text with
  | [] => (.close (some .truncated), none)
  | c :: tail =>
    have hlt : tail.length < text.length := by
      have := skipBlanks_length_le text
      simp only [h, List.length_cons] at this
      omega
    if c = ']' then (.close none, some ⟨tail, hlt⟩)
    else if first then readItem text text (Nat.le_refl _)
    else if c = ',' then
      match skipBlanks tail with
      | [] => (.cons (.broken .truncated) (.close none), none)
      | d :: _ =>
        if d = ']' then (.cons (.broken .malformed) (.close none), none)
        else readItem tail text (Nat.le_of_lt hlt)
    else (.close (some .malformed), none)
termination_by (text.length, 2)

/-- Reads an element and those after it. -/
def readItem (tail text : List Char) (h : tail.length ≤ text.length) :
    Items × Option (Shorter text) :=
  match readValue tail with
  | (item, none) => (.cons item (.close none), none)
  | (item, some rest) =>
    let (items, after) := readItems false rest.val
    (.cons item items,
      after.map (.widen (Nat.le_trans (Nat.le_of_lt rest.property) h)))
termination_by (tail.length, 1)
decreasing_by
  · exact Prod.Lex.right _ (by decide)
  · exact Prod.Lex.left _ _ rest.property

/-- Reads the members of an object up to its closing brace. -/
def readMembers (first : Bool) (text : List Char) : Members × Option (Shorter text) :=
  match h : skipBlanks text with
  | [] => (.close (some .truncated), none)
  | c :: tail =>
    have hlt : tail.length < text.length := by
      have := skipBlanks_length_le text
      simp only [h, List.length_cons] at this
      omega
    if c = '}' then (.close none, some ⟨tail, hlt⟩)
    else if first then
      if c = '"' then readMember tail text hlt else (.close (some .malformed), none)
    else if c = ',' then
      match h' : skipBlanks tail with
      | [] => (.close (some .truncated), none)
      | d :: tail' =>
        have hlt' : tail'.length < text.length := by
          have := skipBlanks_length_le tail
          simp only [h', List.length_cons] at this
          omega
        if d = '"' then readMember tail' text hlt' else (.close (some .malformed), none)
    else (.close (some .malformed), none)
termination_by (text.length, 0)

/-- Reads a member, of which the key's opening quote has been read, and those after it. -/
def readMember (tail text : List Char) (h : tail.length < text.length) :
    Members × Option (Shorter text) :=
  match hs : readString tail with
  | .error stop => (.close (some stop), none)
  | .ok (key, afterKey) =>
    match h' : skipBlanks afterKey with
    | [] => (.cons key (.broken .truncated) (.close none), none)
    | c :: valueText =>
      if c = ':' then
        have hlt : valueText.length < tail.length := by
          have h₁ := readString_length_lt hs
          have h₂ := skipBlanks_length_le afterKey
          simp only [h', List.length_cons] at h₂
          omega
        match readValue valueText with
        | (value, none) => (.cons key value (.close none), none)
        | (value, some rest) =>
          let (members, after) := readMembers false rest.val
          (.cons key value members,
            after.map (.widen (by have := rest.property; omega)))
      else (.cons key (.broken .malformed) (.close none), none)
termination_by (tail.length, 0)
decreasing_by
  · exact Prod.Lex.left _ _ hlt
  · exact Prod.Lex.left _ _ (Nat.lt_trans rest.property hlt)

end

/-- What a whole text holds, and whether something follows the value. -/
structure Document where
  outline : Outline
  trailing : Bool

/-- Reads a whole text. -/
def Document.ofText (text : List Char) : Document :=
  match readValue text with
  | (outline, none) => ⟨outline, false⟩
  | (outline, some rest) => ⟨outline, !(skipBlanks rest.val).isEmpty⟩

end SourceRepair.Json
