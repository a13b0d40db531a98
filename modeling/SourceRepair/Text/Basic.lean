import SourceRepair.Text.CharClass

/-!
# Text as a list of characters

Source text is handled as `List Char`, so that patterns, literals and edits are read off the data by
recursion. Offsets that other tools see count the bytes of the UTF-8 form; `utf8Size` is that count
and `splitAtByte` cuts at such an offset.
-/

namespace SourceRepair.Text

open CharClass

/-- The number of bytes of the UTF-8 form of `text`. -/
def utf8Size (text : List Char) : Nat :=
  text.foldr (fun c size => c.utf8Size + size) 0

/-- The empty text takes no bytes. -/
@[simp] theorem utf8Size_nil : utf8Size [] = 0 := rfl

/-- Sizes add up, a character at a time. -/
@[simp] theorem utf8Size_cons (c : Char) (text : List Char) :
    utf8Size (c :: text) = c.utf8Size + utf8Size text := rfl

/-- The size of two texts in a row is the sum of their sizes. -/
@[simp] theorem utf8Size_append (s t : List Char) :
    utf8Size (s ++ t) = utf8Size s + utf8Size t := by
  induction s with
  | nil => simp
  | cons c rest ih => simp [ih, Nat.add_assoc]

/-- Cuts `text` at the first character boundary that is at least `offset` bytes in. -/
def splitAtByte (offset : Nat) : List Char → List Char × List Char
  | [] => ([], [])
  | c :: rest =>
    if offset = 0 then ([], c :: rest)
    else
      let (before, after) := splitAtByte (offset - c.utf8Size) rest
      (c :: before, after)

/-- A cut loses nothing. -/
theorem splitAtByte_append (offset : Nat) (text : List Char) :
    (splitAtByte offset text).1 ++ (splitAtByte offset text).2 = text := by
  induction text generalizing offset with
  | nil => rfl
  | cons c rest ih =>
    by_cases h : offset = 0
    · simp [splitAtByte, h]
    · simp [splitAtByte, h, ih]

/-- Drops white space at the start. -/
def trimStart (text : List Char) : List Char :=
  text.dropWhile isWhite

/-- Drops white space at the end. -/
def trimEnd (text : List Char) : List Char :=
  (text.reverse.dropWhile isWhite).reverse

/-- Drops white space at both ends. -/
def trim (text : List Char) : List Char :=
  trimEnd (trimStart text)

/-- Whether `part` stands anywhere in `text`. -/
def occurs (part : List Char) : List Char → Bool
  | [] => part.isEmpty
  | c :: rest => part.isPrefixOf (c :: rest) || occurs part rest

/-- The pieces of `text` between occurrences of `separator`, one more than there are occurrences. -/
def pieces (separator : Char) : List Char → List (List Char)
  | [] => [[]]
  | c :: rest =>
    if c = separator then [] :: pieces separator rest
    else
      match pieces separator rest with
      | [] => [[c]]
      | piece :: more => (c :: piece) :: more

/-- Joins texts with `separator` between them. -/
def join (separator : List Char) : List (List Char) → List Char
  | [] => []
  | [piece] => piece
  | piece :: more => piece ++ separator ++ join separator more

/-- There is always a first piece. -/
theorem pieces_ne_nil (separator : Char) (text : List Char) : pieces separator text ≠ [] := by
  cases text with
  | nil => simp [pieces]
  | cons c rest =>
    by_cases h : c = separator
    · simp [pieces, h]
    · cases hp : pieces separator rest <;> simp [pieces, h, hp]

/-- No piece holds the separator. -/
theorem not_mem_of_mem_pieces {separator : Char} {text piece : List Char}
    (h : piece ∈ pieces separator text) : separator ∉ piece := by
  induction text generalizing piece with
  | nil =>
    rw [pieces, List.mem_singleton] at h
    simp [h]
  | cons c rest ih =>
    rw [pieces] at h
    split at h
    · rcases List.mem_cons.mp h with rfl | h
      · simp
      · exact ih h
    · rename_i hc
      split at h
      · rw [List.mem_singleton] at h
        simp [h, Ne.symm hc]
      · rename_i first more hp
        rcases List.mem_cons.mp h with rfl | h
        · simpa [Ne.symm hc] using ih (hp ▸ List.mem_cons_self)
        · exact ih (hp ▸ List.mem_cons_of_mem _ h)

/-- Writing the separator between the pieces gives the text back. -/
theorem join_pieces (separator : Char) (text : List Char) :
    join [separator] (pieces separator text) = text := by
  induction text with
  | nil => rfl
  | cons c rest ih =>
    by_cases h : c = separator
    · cases hp : pieces separator rest with
      | nil => exact absurd hp (pieces_ne_nil separator rest)
      | cons p more => simp_all [pieces, join]
    · cases hp : pieces separator rest with
      | nil => exact absurd hp (pieces_ne_nil separator rest)
      | cons p more => cases more <;> simp_all [pieces, join]

/-- A piece without the separator goes on with the first piece of what follows. -/
theorem pieces_append {separator : Char} {piece rest first : List Char} {more : List (List Char)}
    (hpiece : separator ∉ piece) (hrest : pieces separator rest = first :: more) :
    pieces separator (piece ++ rest) = (piece ++ first) :: more := by
  induction piece with
  | nil => exact hrest
  | cons c piece ih =>
    obtain ⟨hc, hpiece⟩ : separator ≠ c ∧ separator ∉ piece := by simpa using hpiece
    rw [List.cons_append, pieces, if_neg (Ne.symm hc), ih hpiece]
    rfl

/-- A text without the separator is its only piece. -/
theorem pieces_of_not_mem {separator : Char} {piece : List Char} (h : separator ∉ piece) :
    pieces separator piece = [piece] := by
  have hnil : pieces separator [] = [[]] := rfl
  simpa using pieces_append h hnil

/-- A text is cut at each of its separators, so first at any one of them. -/
theorem pieces_append_cons (separator : Char) (text rest : List Char) :
    pieces separator (text ++ separator :: rest)
      = pieces separator text ++ pieces separator rest := by
  induction text with
  | nil => rw [List.nil_append, pieces, pieces, if_pos rfl, List.singleton_append]
  | cons c text ih =>
    rw [List.cons_append, pieces, pieces, ih]
    split
    · rfl
    · cases hp : pieces separator text with
      | nil => exact absurd hp (pieces_ne_nil separator text)
      | cons first more => rfl

/-- Pieces without the separator are found again where they have been joined. -/
theorem pieces_join {separator : Char} {parts : List (List Char)} (hne : parts ≠ [])
    (h : ∀ part ∈ parts, separator ∉ part) :
    pieces separator (join [separator] parts) = parts := by
  induction parts with
  | nil => exact absurd rfl hne
  | cons part more ih =>
    obtain ⟨hpart, hmore⟩ := List.forall_mem_cons.mp h
    cases more with
    | nil => exact pieces_of_not_mem hpart
    | cons next more =>
      have hrest : pieces separator (separator :: join [separator] (next :: more))
          = [] :: next :: more := by
        rw [pieces, if_pos rfl, ih (List.cons_ne_nil _ _) hmore]
      simpa [join] using pieces_append hpart hrest

end SourceRepair.Text
