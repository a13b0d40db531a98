import SourceRepair.Json.Value
import SourceRepair.Proofs.Json.Grammar

/-!
# The indented form reads back

The indented form is one of the texts that write a value (`writes_prettyAt`), so every value is read
back from it, as the outline that shows the value (`ofText_pretty`). Strings are written character
by character, numbers by their digits, and arrays and objects by induction on the value, with the
line ends and the indentation as the blanks between tokens.
-/

namespace SourceRepair.Json

mutual

/-- The outline that shows a value. -/
def Value.outline : Value → Outline
  | .null => .null
  | .bool value => .bool value
  | .int n => .number ⟨decide (n < 0), n.natAbs, 0, true⟩
  | .double d => .number ⟨d.shortest.negative, d.shortest.digits, d.shortest.exponent, false⟩
  | .string value => .text (some value.toList)
  | .array items => .array (Value.outlineItems items)
  | .object members => .object (Value.outlineMembers members)

/-- The elements of an array as they are shown. -/
def Value.outlineItems : List Value → Items
  | [] => .close none
  | item :: items => .cons item.outline (Value.outlineItems items)

/-- The members of an object as they are shown. -/
def Value.outlineMembers : List (String × Value) → Members
  | [] => .close none
  | (key, value) :: members => .cons (some key.toList) value.outline (Value.outlineMembers members)

end

/-! ## Strings -/

/-- A character below the blank is written as its number in hexadecimal digits. -/
theorem writesUnit_control (c : Char) (h : c.toNat < 32) :
    WritesUnit ['0', '0', hexDigit (c.toNat / 16), hexDigit (c.toNat % 16)] c.toNat := by
  have hhex : ∀ n < 32, ['0', '0', hexDigit (n / 16), hexDigit (n % 16)].all Text.isHex = true := by
    decide
  have hvalue : ∀ n < 32,
      Text.digitsValue 16 ['0', '0', hexDigit (n / 16), hexDigit (n % 16)] = n := by
    decide
  exact ⟨rfl, List.all_eq_true.mp (hhex c.toNat h), hvalue c.toNat h⟩

/-- A character is written as what it is escaped as. -/
theorem writesChar_escapeChar (c : Char) : WritesChar (escapeChar c) c := by
  unfold escapeChar
  split
  case isTrue h => subst h; exact .short (by decide)
  case isFalse hquote =>
  split
  case isTrue h => subst h; exact .short (by decide)
  case isFalse hbackslash =>
  split
  case isTrue h => subst h; exact .short (by decide)
  case isFalse =>
  split
  case isTrue h => subst h; exact .short (by decide)
  case isFalse =>
  split
  case isTrue h => subst h; exact .short (by decide)
  case isFalse =>
  split
  case isTrue h => subst h; exact .short (by decide)
  case isFalse =>
  split
  case isTrue h => subst h; exact .short (by decide)
  case isFalse =>
  split
  case isTrue hcontrol => exact .unit (writesUnit_control c hcontrol)
  case isFalse hcontrol => exact .plain hquote hbackslash (Nat.not_lt.mp hcontrol)

/-- A string is written character by character. -/
theorem writesText_escaped (text : List Char) :
    WritesText (text.flatMap escapeChar) (some text) := by
  induction text with
  | nil => exact .nil
  | cons c more ih =>
    rw [List.flatMap_cons]
    exact .char (writesChar_escapeChar c) ih

/-! ## Numbers -/

/-- No number has a superfluous zero in front. -/
theorem isWhole_toDigits (n : Nat) : IsWhole (Nat.toDigits 10 n) where
  ne_nil := Nat.toDigits_ne_nil
  decimal _ hc := Text.isDecimal_of_mem_toDigits hc
  leading hhead := by
    obtain rfl := Text.eq_zero_of_head?_toDigits hhead
    rfl

/-- A whole number in the written form starts with a digit or, if it is negative, with a sign. -/
theorem toList_toString_int (n : Int) :
    (toString n).toList = (if n < 0 then ['-'] else []) ++ Nat.toDigits 10 n.natAbs := by
  cases n with
  | ofNat n =>
    have hneg : ¬ (Int.ofNat n < 0) := by simp
    rw [if_neg hneg]
    exact Nat.toList_repr
  | negSucc n =>
    rw [if_pos (Int.negSucc_lt_zero n)]
    show ("-" ++ Nat.repr n.succ).toList = _
    rw [String.toList_append, Nat.toList_repr]
    rfl

/-- A whole number is written in its digits. -/
theorem writesNumber_int (n : Int) :
    WritesNumber (toString n).toList ⟨decide (n < 0), n.natAbs, 0, true⟩ := by
  have hparts := WritesNumber.parts (decide (n < 0)) (isWhole_toDigits n.natAbs) .absent .absent
  rw [toList_toString_int]
  simpa using hparts

/-- A whole number is written as an exponent. -/
theorem writesExponent_int (n : Int) :
    WritesExponent ('e' :: (toString n).toList) (some n) := by
  have hdigits := (isWhole_toDigits n.natAbs).toIsDigits
  rw [toList_toString_int]
  by_cases hneg : n < 0
  · have hvalue : Text.signed true (Text.digitsValue 10 (Nat.toDigits 10 n.natAbs)) = n := by
      rw [Text.digitsValue_toDigits, Text.signed, if_pos rfl]
      omega
    have hexponent := WritesExponent.present (.inl (rfl : 'e' = 'e'))
      (show (['-'], true) ∈ _ by simp) hdigits
    rw [hvalue] at hexponent
    rwa [if_pos hneg]
  · have hvalue : Text.signed false (Text.digitsValue 10 (Nat.toDigits 10 n.natAbs)) = n := by
      rw [Text.digitsValue_toDigits, Text.signed, if_neg (by decide)]
      omega
    have hexponent := WritesExponent.present (.inl (rfl : 'e' = 'e'))
      (show ([], false) ∈ _ by simp) hdigits
    rw [hvalue] at hexponent
    rwa [if_neg hneg]

/-- A double is written as its sign, its digits, and its exponent. -/
theorem writesNumber_double (d : Double) : WritesNumber (doubleChars d)
    ⟨d.shortest.negative, d.shortest.digits, d.shortest.exponent, false⟩ := by
  have hparts := WritesNumber.parts d.shortest.negative (isWhole_toDigits d.shortest.digits) .absent
    (writesExponent_int d.shortest.exponent)
  unfold doubleChars Decimal.toChars
  cases hnegative : d.shortest.negative <;> simpa [hnegative] using hparts

/-! ## Values -/

/-- A line starts with blanks. -/
theorem isBlanks_newLine (depth : Nat) : IsBlanks (newLine depth) := by
  intro c hc
  rcases List.mem_cons.mp hc with rfl | hc
  · rfl
  · rw [List.eq_of_mem_replicate hc]
    rfl

/-- A key and a value are written on a line, with a colon and a blank between them. -/
theorem writesMember_line {value : Outline} {before text after : List Char} (key : String)
    (hbefore : IsBlanks before) (hvalue : Writes text value) (hafter : IsBlanks after) :
    WritesMember (before ++ quote key.toList ++ ": ".toList ++ text ++ after) (some key.toList)
      value := by
  have hblank : IsBlanks [' '] := by simp [IsBlanks, isBlank]
  have hmember := WritesMember.mk hbefore (writesText_escaped key.toList) isBlanks_nil hblank hvalue
    hafter
  simpa [quote] using hmember

mutual

/-- The indented form of a value writes it. -/
theorem writes_prettyAt : ∀ (value : Value) (depth : Nat),
    Writes (value.prettyAt depth) value.outline
  | .null, _ => .null
  | .bool true, _ => .bool true
  | .bool false, _ => .bool false
  | .int n, _ => .number (writesNumber_int n)
  | .double d, _ => .number (writesNumber_double d)
  | .string value, _ => .text (writesText_escaped value.toList)
  | .array [], _ => .emptyArray isBlanks_nil
  | .array (item :: items), depth => by
    have hitems := writesItems_prettyItems items (depth + 1) depth
      (writes_prettyAt item (depth + 1))
    have harray := Writes.array hitems
    simpa [Value.prettyAt, Value.outline, Value.outlineItems] using harray
  | .object [], _ => .emptyObject isBlanks_nil
  | .object ((key, value) :: members), depth => by
    have hmembers := writesMembers_prettyMembers members (depth + 1) depth key
      (writes_prettyAt value (depth + 1))
    have hobject := Writes.object hmembers
    simpa [Value.prettyAt, Value.outline, Value.outlineMembers] using hobject

/-- Behind a first element, the others are written on their lines, and then the line of the
bracket. -/
theorem writesItems_prettyItems : ∀ (items : List Value) (depth indent : Nat) {text : List Char}
    {item : Outline}, Writes text item →
    WritesItems (newLine depth ++ text ++ Value.prettyItems depth items ++ newLine indent)
      (.cons item (Value.outlineItems items))
  | [], depth, indent, _, _, hitem => by
    have hlast := WritesItems.last (isBlanks_newLine depth) hitem (isBlanks_newLine indent)
    simpa [Value.prettyItems, Value.outlineItems] using hlast
  | next :: items, depth, indent, _, _, hitem => by
    have hcons := WritesItems.cons (isBlanks_newLine depth) hitem isBlanks_nil
      (writesItems_prettyItems items depth indent (writes_prettyAt next depth))
    simpa [Value.prettyItems, Value.outlineItems] using hcons

/-- Behind a first member, the others are written on their lines, and then the line of the brace. -/
theorem writesMembers_prettyMembers : ∀ (members : List (String × Value)) (depth indent : Nat)
    (key : String) {text : List Char} {value : Outline}, Writes text value →
    WritesMembers (newLine depth ++ quote key.toList ++ ": ".toList ++ text
      ++ Value.prettyMembers depth members ++ newLine indent)
      (.cons (some key.toList) value (Value.outlineMembers members))
  | [], depth, indent, key, _, _, hvalue => by
    have hlast := WritesMembers.last
      (writesMember_line key (isBlanks_newLine depth) hvalue (isBlanks_newLine indent))
    simpa [Value.prettyMembers, Value.outlineMembers] using hlast
  | (next, value) :: members, depth, indent, key, _, _, hvalue => by
    have hcons := WritesMembers.cons
      (writesMember_line key (isBlanks_newLine depth) hvalue isBlanks_nil)
      (writesMembers_prettyMembers members depth indent next (writes_prettyAt value depth))
    simpa [Value.prettyMembers, Value.outlineMembers] using hcons

end

/-- The indented form of a value, as a whole text, writes the value. -/
theorem writes_pretty (value : Value) : Writes value.pretty.toList value.outline := by
  rw [Value.pretty, String.toList_ofList]
  exact writes_prettyAt value 0

/-- A value is read back from its indented form, as a whole text. -/
theorem ofText_pretty (value : Value) :
    Document.ofText value.pretty.toList = ⟨value.outline, false⟩ :=
  ofText_of_writes (writes_pretty value)

end SourceRepair.Json
