import Mathlib
import SourceRepair.Proofs.Text.Cutting

/-!
# The bytes of a text

Offsets count the bytes of the UTF-8 form of a text (`bytes`). Two texts can be compared byte by
byte without knowing where their characters start: only the first byte of a character looks like
one, so a character that starts in one text starts in the other where the bytes are the same
(`start_eq_of_byte_eq`), and it is the same character if all its bytes are (`eq_of_bytes_eq`).
-/

namespace SourceRepair.Text

/-- The UTF-8 form of a text. -/
def bytes (text : List Char) : List UInt8 :=
  text.flatMap String.utf8EncodeChar

@[simp] theorem bytes_append (s t : List Char) : bytes (s ++ t) = bytes s ++ bytes t :=
  List.flatMap_append

@[simp] theorem length_bytes (text : List Char) : (bytes text).length = utf8Size text := by
  induction text with
  | nil => rfl
  | cons c rest ih =>
    rw [bytes, List.flatMap_cons, List.length_append, String.length_utf8EncodeChar, utf8Size_cons]
    exact congrArg _ ih

/-- The bytes of a character of a text are those of the character. -/
theorem getElem?_bytes (before after : List Char) {c : Char} {i : Nat} (hi : i < c.utf8Size) :
    (bytes (before ++ c :: after))[utf8Size before + i]? = (String.utf8EncodeChar c)[i]? := by
  have hsize : i < (String.utf8EncodeChar c).length := by rwa [String.length_utf8EncodeChar]
  rw [bytes_append, List.getElem?_append_right (by simp), length_bytes, Nat.add_sub_cancel_left]
  exact List.getElem?_append_left hsize

/-- Every byte of a text belongs to a character. -/
theorem exists_char_of_lt {text : List Char} {offset : Nat} (h : offset < utf8Size text) :
    ∃ before c after, text = before ++ c :: after ∧ utf8Size before ≤ offset ∧
      offset < utf8Size before + c.utf8Size := by
  induction text generalizing offset with
  | nil => exact absurd h (Nat.not_lt_zero _)
  | cons c rest ih =>
    by_cases hfirst : offset < c.utf8Size
    · exact ⟨[], c, rest, rfl, Nat.zero_le _, by simpa using hfirst⟩
    · rw [utf8Size_cons] at h
      obtain ⟨before, d, after, rfl, hlow, hhigh⟩ := @ih (offset - c.utf8Size) (by omega)
      refine ⟨c :: before, d, after, rfl, ?_, ?_⟩
      · rw [utf8Size_cons]
        omega
      · rw [utf8Size_cons]
        omega

/-- Where the bytes of two texts agree, a character that starts in one of them starts in the
other. -/
theorem start_eq_of_byte_eq {before after before' after' : List Char} {c d : Char}
    (h : (bytes (before ++ c :: after))[utf8Size before]?
      = (bytes (before' ++ d :: after'))[utf8Size before]?)
    (hlow : utf8Size before' ≤ utf8Size before)
    (hhigh : utf8Size before < utf8Size before' + d.utf8Size) :
    utf8Size before' = utf8Size before := by
  obtain ⟨i, hi⟩ := Nat.exists_eq_add_of_le hlow
  have hsize : i < (String.utf8EncodeChar d).length := by
    rw [String.length_utf8EncodeChar]
    omega
  have hpos : 0 < (String.utf8EncodeChar c).length := by
    rw [String.length_utf8EncodeChar]
    exact c.utf8Size_pos
  have hfirst := getElem?_bytes before after c.utf8Size_pos
  have hinner := getElem?_bytes before' after' (show i < d.utf8Size by omega)
  rw [Nat.add_zero] at hfirst
  rw [← hi, ← h, hfirst, List.getElem?_eq_getElem hpos, List.getElem?_eq_getElem hsize] at hinner
  -- of the bytes of a character only the first one is marked as such
  have hstart : (String.utf8EncodeChar c)[0].IsUTF8FirstByte :=
    UInt8.isUTF8FirstByte_getElem_utf8EncodeChar.mpr rfl
  rw [Option.some.inj hinner] at hstart
  have hzero := UInt8.isUTF8FirstByte_getElem_utf8EncodeChar.mp hstart
  omega

/-- No character's bytes are the beginning of those of another one. -/
theorem eq_of_prefix_utf8EncodeChar {c d : Char}
    (h : String.utf8EncodeChar c <+: String.utf8EncodeChar d) : c = d := by
  obtain ⟨more, hd⟩ := h
  have hc := ByteArray.utf8DecodeChar?_utf8EncodeChar_append (b := more.toByteArray) (c := c)
  have hd' := ByteArray.utf8DecodeChar?_utf8EncodeChar_append (b := ByteArray.empty) (c := d)
  rw [← List.toByteArray_append, hd] at hc
  rw [ByteArray.append_empty] at hd'
  exact Option.some.inj (hc.symm.trans hd')

/-- Two characters with the same bytes, as far as both have some, are the same. -/
theorem eq_of_bytes_eq {c d : Char} (h : ∀ i, i < c.utf8Size → i < d.utf8Size →
    (String.utf8EncodeChar c)[i]? = (String.utf8EncodeChar d)[i]?) : c = d := by
  have hlength := String.length_utf8EncodeChar
  rcases Nat.le_total c.utf8Size d.utf8Size with hle | hle
  · refine eq_of_prefix_utf8EncodeChar (List.prefix_iff_getElem?.mpr fun i hi => ?_)
    rw [hlength] at hi
    rw [← h i hi (by omega), List.getElem?_eq_getElem]
  · refine (eq_of_prefix_utf8EncodeChar (List.prefix_iff_getElem?.mpr fun i hi => ?_)).symm
    rw [hlength] at hi
    rw [h i (by omega) hi, List.getElem?_eq_getElem]

end SourceRepair.Text
