import SourceRepair.Proofs.Literal.Borders
import SourceRepair.Proofs.Text.Bytes

/-!
# Texts with the same code

Two texts of one size have the same code if their literals and comments take the same places and
all other bytes are the same (`SameCode`). What the literals and comments hold may differ, also in
the number of characters, so characters of the two texts correspond to each other by their offsets.
A stretch of code stands in both of them (`SameCode.exists_word`), and where no border begins or
ends with it, the characters next to it are the same too (`SameCode.exists_word_surrounded`).
-/

namespace SourceRepair

open Text LiteralSpans

/-- The texts have the same size and the same spans, and differ at most in bytes inside those
spans. -/
structure SameCode (text other : List Char) : Prop where
  size_eq : utf8Size other = utf8Size text
  spans_eq : literalSpans other = literalSpans text
  byte_eq : ∀ offset, Span.covers (literalSpans text) offset = false →
    (bytes other)[offset]? = (bytes text)[offset]?

namespace SameCode

theorem symm {text other : List Char} (h : SameCode text other) : SameCode other text where
  size_eq := h.size_eq.symm
  spans_eq := h.spans_eq.symm
  byte_eq offset hcode := (h.byte_eq offset (h.spans_eq ▸ hcode)).symm

end SameCode

/-- Only the bytes of the texts have to be compared. -/
theorem sameCode_iff {text other : List Char} : SameCode text other ↔
    utf8Size other = utf8Size text ∧ literalSpans other = literalSpans text ∧
      ∀ offset < utf8Size text, Span.covers (literalSpans text) offset = false →
        (bytes other)[offset]? = (bytes text)[offset]? := by
  refine ⟨fun h => ⟨h.size_eq, h.spans_eq, fun offset _ => h.byte_eq offset⟩, ?_⟩
  rintro ⟨hsize, hspans, hbytes⟩
  refine ⟨hsize, hspans, fun offset hcode => ?_⟩
  by_cases hlt : offset < utf8Size text
  · exact hbytes offset hlt hcode
  · rw [List.getElem?_eq_none (by rw [length_bytes]; omega),
      List.getElem?_eq_none (by rw [length_bytes]; omega)]

instance (text other : List Char) : Decidable (SameCode text other) :=
  decidable_of_iff _ sameCode_iff.symm

namespace SameCode

variable {text other before after before' after' word : List Char} {c d : Char}

/-! ## Stretches of code -/

/-- A character of code stands at the same offset in the other text. -/
theorem exists_char (h : SameCode text other) (htext : text = before ++ c :: after)
    (hcode : Span.covers (literalSpans text) (utf8Size before) = false) :
    ∃ before' after', other = before' ++ c :: after' ∧ utf8Size before' = utf8Size before := by
  have hpos := c.utf8Size_pos
  have hsize := h.size_eq
  have htotal : utf8Size text = utf8Size before + (c.utf8Size + utf8Size after) := by
    rw [htext, utf8Size_append, utf8Size_cons]
  obtain ⟨before', d, after', hother, hlow, hhigh⟩ :=
    exists_char_of_lt (show utf8Size before < utf8Size other by omega)
  have hfirst := h.byte_eq _ hcode
  rw [htext, hother] at hfirst
  have hplace := start_eq_of_byte_eq hfirst.symm hlow hhigh
  refine ⟨before', after', ?_, hplace⟩
  -- all bytes of both characters are code, so they agree
  have hsame : c = d := eq_of_bytes_eq fun i hc hd => by
    have hcovers := covers_of_mem_char htext (show utf8Size before ≤ utf8Size before + i by omega)
      (by omega)
    have hbyte := h.byte_eq _ (hcovers.trans hcode)
    have hmine := getElem?_bytes before after hc
    have htheirs := getElem?_bytes before' after' hd
    rw [hplace] at htheirs
    rw [← hmine, ← htheirs, ← htext, ← hother, hbyte]
  rw [hsame]
  exact hother

/-- The characters at one offset of code are the same. -/
theorem char_eq (h : SameCode text other) (htext : text = before ++ c :: after)
    (hcode : Span.covers (literalSpans text) (utf8Size before) = false)
    (hother : other = before' ++ d :: after') (hplace : utf8Size before' = utf8Size before) :
    d = c := by
  obtain ⟨front, back, hfound, hstart⟩ := h.exists_char htext hcode
  have hcut : before' ++ d :: after' = front ++ c :: back := hother.symm.trans hfound
  obtain ⟨-, hrest⟩ := eq_of_append_eq_append hcut (hplace.trans hstart.symm)
  exact (List.cons.inj hrest).1

/-- A stretch of code stands at the same offset in the other text. -/
theorem exists_word (h : SameCode text other) (hne : word ≠ [])
    (htext : text = before ++ (word ++ after))
    (hcode : ∀ offset, utf8Size before ≤ offset → offset < utf8Size before + utf8Size word →
      Span.covers (literalSpans text) offset = false) :
    ∃ before' after', other = before' ++ (word ++ after') ∧
      utf8Size before' = utf8Size before := by
  induction word generalizing before with
  | nil => exact absurd rfl hne
  | cons c rest ih =>
    have hpos := c.utf8Size_pos
    rw [utf8Size_cons] at hcode
    obtain ⟨before', after', hother, hplace⟩ := h.exists_char htext
      (hcode _ (Nat.le_refl _) (by omega))
    cases rest with
    | nil => exact ⟨before', after', hother, hplace⟩
    | cons d rest =>
      obtain ⟨front, after'', hother', hplace'⟩ := ih (List.cons_ne_nil d rest)
        (show text = (before ++ [c]) ++ (d :: rest ++ after) by simpa using htext)
        fun offset hlow hhigh => by
          rw [utf8Size_concat] at hlow hhigh
          exact hcode offset (by omega) (by omega)
      -- both cuts of the other text are behind the character `c`
      have hcut : (before' ++ [c]) ++ after' = front ++ (d :: rest ++ after'') := by
        rw [← hother', hother, List.append_assoc]
        rfl
      obtain ⟨-, rfl⟩ := eq_of_append_eq_append hcut (by
        rw [hplace', utf8Size_concat, utf8Size_concat, hplace])
      exact ⟨before', after'', hother, hplace⟩

/-! ## What stands next to a stretch of code -/

/-- Behind a character of code that is no entrance the same character follows in both texts, if
any. -/
theorem head?_eq (h : SameCode text other) (htext : text = before ++ c :: after)
    (hother : other = before' ++ c :: after') (hplace : utf8Size before' = utf8Size before)
    (hcode : Span.covers (literalSpans text) (utf8Size before) = false) (hedge : c ∉ entrances) :
    after'.head? = after.head? := by
  have hsize := h.size_eq
  rw [htext, hother, utf8Size_append, utf8Size_append, utf8Size_cons, utf8Size_cons, hplace]
    at hsize
  rcases after with _ | ⟨d, after⟩ <;> rcases after' with _ | ⟨e, after'⟩
  · rfl
  · have := e.utf8Size_pos
    rw [utf8Size_cons, utf8Size_nil] at hsize
    omega
  · have := d.utf8Size_pos
    rw [utf8Size_cons, utf8Size_nil] at hsize
    omega
  · show some e = some d
    congr 1
    cases hnext : Span.covers (literalSpans text) (utf8Size before + c.utf8Size) with
    | false =>
      refine h.char_eq (show text = (before ++ [c]) ++ d :: after by simpa using htext) ?_
        (show other = (before' ++ [c]) ++ e :: after' by simpa using hother) ?_
      · rw [utf8Size_concat]
        exact hnext
      · rw [utf8Size_concat, utf8Size_concat, hplace]
    | true =>
      -- in both texts a comment begins
      have hmine := (enters htext hcode hnext).resolve_left hedge
      rw [← h.spans_eq, ← hplace] at hcode hnext
      have htheirs := (enters hother hcode hnext).resolve_left hedge
      rw [hmine, htheirs]

/-- In front of a character of code that is no exit the same character stands in both texts, if any.
-/
theorem getLast?_eq (h : SameCode text other) (htext : text = before ++ d :: after)
    (hother : other = before' ++ d :: after') (hplace : utf8Size before' = utf8Size before)
    (hcode : Span.covers (literalSpans text) (utf8Size before) = false) (hedge : d ∉ exits)
    (hhole : d ≠ '$') : before'.getLast? = before.getLast? := by
  rcases before.eq_nil_or_concat' with rfl | ⟨front, c, rfl⟩
  · rw [eq_nil_of_utf8Size_eq_zero hplace]
  rcases before'.eq_nil_or_concat' with rfl | ⟨front', e, rfl⟩
  · have := c.utf8Size_pos
    rw [utf8Size_concat, utf8Size_nil] at hplace
    omega
  have hc := c.utf8Size_pos
  have he := e.utf8Size_pos
  rw [utf8Size_concat] at hcode
  rw [utf8Size_concat, utf8Size_concat] at hplace
  rw [List.getLast?_concat, List.getLast?_concat]
  have hmine : text = front ++ c :: d :: after := by simpa using htext
  have htheirs : other = front' ++ e :: d :: after' := by simpa using hother
  congr 1
  cases hprevious : Span.covers (literalSpans text) (utf8Size front) with
  | false =>
    obtain ⟨start, behind, hfound, hstart⟩ := h.exists_char hmine hprevious
    have hcut : (front' ++ [e]) ++ d :: after' = (start ++ [c]) ++ behind := by
      rw [← hother, hfound, List.append_assoc]
      rfl
    obtain ⟨hfront, -⟩ := eq_of_append_eq_append hcut (by
      rw [utf8Size_concat, utf8Size_concat, hplace, hstart])
    exact (List.cons.inj (List.append_inj' hfront rfl).2).1
  | true =>
    -- in both texts a block comment ends
    have hslash : ∀ {t b x a}, t = b ++ x :: d :: a →
        Span.covers (literalSpans t) (utf8Size b) = true →
        Span.covers (literalSpans t) (utf8Size b + x.utf8Size) = false → x = '/' := by
      intro t b x a ht hb hx
      rcases leaves ht hb hx with hslash | hexit | ⟨hdollar, -⟩
      · exact hslash
      · exact absurd hexit hedge
      · exact absurd hdollar hhole
    have hlast := covers_of_mem_char hmine
      (show utf8Size front ≤ utf8Size front + c.utf8Size - 1 by omega) (by omega)
    have hlast' := covers_of_mem_char htheirs
      (show utf8Size front' ≤ utf8Size front + c.utf8Size - 1 by omega) (by omega)
    rw [h.spans_eq] at hlast'
    rw [hslash hmine hprevious hcode, hslash htheirs]
    · rw [h.spans_eq, ← hlast', hlast, hprevious]
    · rw [h.spans_eq, hplace, hcode]

/-- A stretch of code that neither begins with an exit nor ends with an entrance stands in the other
text too, and with the same characters next to it. -/
theorem exists_word_surrounded (h : SameCode text other) (hne : word ≠ [])
    (htext : text = before.reverse ++ (word ++ after))
    (hcode : ∀ offset, utf8Size before ≤ offset → offset < utf8Size before + utf8Size word →
      Span.covers (literalSpans text) offset = false)
    (hfirst : ∀ c ∈ word.head?, c ∉ exits ∧ c ≠ '$')
    (hlast : ∀ c ∈ word.getLast?, c ∉ entrances) :
    ∃ before' after', other = before'.reverse ++ (word ++ after') ∧
      utf8Size before' = utf8Size before ∧ before'.head? = before.head? ∧
      after'.head? = after.head? := by
  rw [← utf8Size_reverse before] at hcode ⊢
  obtain ⟨front, after', hother, hplace⟩ := h.exists_word hne htext hcode
  refine ⟨front.reverse, after', by rw [List.reverse_reverse, hother], ?_, ?_, ?_⟩
  · rw [utf8Size_reverse, hplace]
  · obtain ⟨d, more, rfl⟩ := List.exists_cons_of_ne_nil hne
    have hd := d.utf8Size_pos
    obtain ⟨hedge, hhole⟩ := hfirst d rfl
    rw [utf8Size_cons] at hcode
    rw [List.head?_reverse, ← List.getLast?_reverse]
    exact h.getLast?_eq htext hother hplace (hcode _ (Nat.le_refl _) (by omega)) hedge hhole
  · obtain ⟨more, c, rfl⟩ := word.eq_nil_or_concat'.resolve_left hne
    have hc := c.utf8Size_pos
    rw [utf8Size_concat] at hcode
    have hmine : text = (before.reverse ++ more) ++ c :: after := by simp [htext]
    have htheirs : other = (front ++ more) ++ c :: after' := by simp [hother]
    refine h.head?_eq hmine htheirs ?_ ?_ (hlast c List.getLast?_concat)
    · rw [utf8Size_append, utf8Size_append, hplace]
    · rw [utf8Size_append]
      exact hcode _ (by omega) (by omega)

end SameCode
end SourceRepair
