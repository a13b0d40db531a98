/-!
# Bytes as text

Bytes that should be UTF-8 are read as text even where they are not: every longest run of bytes that
starts a character without completing it, and every byte that cannot start one, becomes the
replacement character.
-/

namespace SourceRepair.Text

/-- The character that stands for bytes that are no text. -/
def replacement : Char := '\uFFFD'

/-- What a first byte of a character of several bytes tells: the bits that it contributes, and the
bounds of the bytes after it. -/
def leadByte? (byte : Nat) : Option (Nat × List (Nat × Nat)) :=
  let tail := (0x80, 0xBF)
  if byte < 0xC2 then none
  else if byte < 0xE0 then some (byte - 0xC0, [tail])
  else if byte = 0xE0 then some (0, [(0xA0, 0xBF), tail])
  else if byte = 0xED then some (0xD, [(0x80, 0x9F), tail])
  else if byte < 0xF0 then some (byte - 0xE0, [tail, tail])
  else if byte = 0xF0 then some (0, [(0x90, 0xBF), tail, tail])
  else if byte < 0xF4 then some (byte - 0xF0, [tail, tail, tail])
  else if byte = 0xF4 then some (4, [(0x80, 0x8F), tail, tail])
  else none

/-- Reads the bytes after the first one of a character, as long as they keep within their bounds. -/
def readTail (code : Nat) : List (Nat × Nat) → List UInt8 → Char × List UInt8
  | [], bytes => (Char.ofNat code, bytes)
  | _ :: _, [] => (replacement, [])
  | (low, high) :: bounds, byte :: bytes =>
    if low ≤ byte.toNat ∧ byte.toNat ≤ high then
      readTail (64 * code + byte.toNat % 64) bounds bytes
    else (replacement, byte :: bytes)

/-- Reads the character that a byte starts; the result is the rest of the bytes. -/
def readChar (byte : UInt8) (bytes : List UInt8) : Char × List UInt8 :=
  if byte.toNat < 0x80 then (Char.ofNat byte.toNat, bytes)
  else
    match leadByte? byte.toNat with
    | none => (replacement, bytes)
    | some (code, bounds) => readTail code bounds bytes

/-- What follows a character is no longer than the bytes. -/
theorem readTail_length_le (code : Nat) (bounds : List (Nat × Nat)) (bytes : List UInt8) :
    (readTail code bounds bytes).2.length ≤ bytes.length := by
  fun_induction readTail code bounds bytes with
  | case1 => simp
  | case2 => simp
  | case3 code low high bounds byte bytes h ih =>
    simp only [List.length_cons]
    omega
  | case4 => simp

/-- A character takes at least one byte. -/
theorem readChar_length_le (byte : UInt8) (bytes : List UInt8) :
    (readChar byte bytes).2.length ≤ bytes.length := by
  unfold readChar
  split
  · simp
  · split
    · simp
    · exact readTail_length_le _ _ _

/-- The text that bytes hold. -/
def ofBytes : List UInt8 → List Char
  | [] => []
  | byte :: bytes =>
    (readChar byte bytes).1 :: ofBytes (readChar byte bytes).2
termination_by bytes => bytes.length
decreasing_by
  have := readChar_length_le byte bytes
  simp only [List.length_cons]
  omega

/-- The text without the byte order mark in front of it, if it has one. -/
def dropOrderMark (text : List Char) : List Char :=
  if text.head? = some '\uFEFF' then text.tail else text

end SourceRepair.Text
