import SourceRepair.Proofs.Text.Lines

/-!
# Trimmed lines

Trimming takes nothing but white space off a text, and nothing at all if the text ends in another
character. A carriage return is taken off, so a line is trimmed alike whether the carriage return at
its end is read as part of it or of its terminator.
-/

namespace SourceRepair

namespace Text

open CharClass (isWhite)

/-- White space at the end is dropped. -/
theorem trimEnd_concat {c : Char} (h : isWhite c = true) (text : List Char) :
    trimEnd (text ++ [c]) = trimEnd text := by
  rw [trimEnd, List.reverse_concat, List.dropWhile_cons_of_pos h]
  rfl

/-- A text whose last character is no white space stays as it is. -/
theorem trimEnd_eq_self {text : List Char} (h : ∀ c ∈ text.getLast?, isWhite c = false) :
    trimEnd text = text := by
  rw [trimEnd]
  cases hreverse : text.reverse with
  | nil =>
    rw [List.reverse_eq_nil_iff] at hreverse
    rw [hreverse]
    rfl
  | cons c front =>
    have htext : text = front.reverse ++ [c] := by
      rw [← List.reverse_reverse text, hreverse, List.reverse_cons]
    have hc : isWhite c = false := h c (by rw [htext, List.getLast?_concat]; rfl)
    rw [List.dropWhile_cons_of_neg (by simp [hc]), ← hreverse, List.reverse_reverse]

/-- White space around a text is dropped, and no more if the text starts and ends in other
characters. -/
theorem trim_append {before text after : List Char} (hbefore : ∀ c ∈ before, isWhite c = true)
    (hafter : ∀ c ∈ after, isWhite c = true) (hne : text ≠ [])
    (hhead : ∀ c ∈ text.head?, isWhite c = false) (hlast : ∀ c ∈ text.getLast?, isWhite c = false) :
    trim (before ++ text ++ after) = text := by
  have hstart : trimStart (before ++ text ++ after) = text ++ after := by
    obtain ⟨c, more, rfl⟩ := List.exists_cons_of_ne_nil hne
    rw [trimStart, List.append_assoc, List.dropWhile_append_of_pos hbefore, List.cons_append,
      List.dropWhile_cons_of_neg (by simp [hhead c rfl])]
  have hend : trimEnd (text ++ after) = trimEnd text := by
    rw [trimEnd, List.reverse_append, List.dropWhile_append_of_pos
      fun c hc => hafter c (List.mem_reverse.mp hc)]
    rfl
  rw [trim, hstart, hend, trimEnd_eq_self hlast]

/-- What is left after trimming is the front of the text. -/
theorem trimEnd_prefix (text : List Char) : trimEnd text <+: text := by
  rw [trimEnd, ← List.reverse_suffix, List.reverse_reverse]
  exact List.dropWhile_suffix _

/-- Trimming takes off white space and nothing else. -/
theorem count_trimEnd {c : Char} (h : isWhite c = false) (text : List Char) :
    (trimEnd text).count c = text.count c := by
  have hwhite : c ∉ text.reverse.takeWhile isWhite := by
    intro hmem
    have hc := List.all_eq_true.mp List.all_takeWhile _ hmem
    exact absurd (h.symm.trans hc) Bool.false_ne_true
  calc (trimEnd text).count c
    _ = (text.reverse.dropWhile isWhite).count c := List.count_reverse
    _ = (text.reverse.takeWhile isWhite).count c + (text.reverse.dropWhile isWhite).count c := by
      rw [List.count_eq_zero.mpr hwhite, Nat.zero_add]
    _ = text.count c := by
      rw [← List.count_append, List.takeWhile_append_dropWhile, List.count_reverse]

end Text

namespace Line

/-- A text without a line feed is a single line. -/
theorem ofText_of_not_mem {text : List Char} (h : '\n' ∉ text) (hne : text ≠ []) :
    ofText text = [⟨text, .missing⟩] := by
  fun_induction ofText text with
  | case1 => exact absurd rfl hne
  | case2 rest _ => exact absurd List.mem_cons_self h
  | case3 rest _ => exact absurd (List.mem_cons_of_mem _ List.mem_cons_self) h
  | case4 c rest _ _ ih =>
    rw [List.mem_cons, not_or] at h
    cases rest with
    | nil => rfl
    | cons d more =>
      rw [ih h.2 (List.cons_ne_nil d more)]
      rfl

/-- The first line of a text ends at the first line feed; a carriage return at its end belongs to
its terminator. -/
theorem exists_ofText_append_lineFeed {text : List Char} (h : '\n' ∉ text) (rest : List Char) :
    ∃ line, ofText (text ++ '\n' :: rest) = line :: ofText rest ∧
      (text = line.text ∨ text = line.text ++ ['\r']) := by
  induction text with
  | nil => exact ⟨⟨[], .lineFeed⟩, by rw [List.nil_append, ofText], .inl rfl⟩
  | cons c more ih =>
    rw [List.mem_cons, not_or] at h
    obtain ⟨hc, hmore⟩ := h
    by_cases hreturn : c = '\r' ∧ more = []
    · obtain ⟨rfl, rfl⟩ := hreturn
      exact ⟨⟨[], .carriageReturnLineFeed⟩,
        by simp only [List.cons_append, List.nil_append, ofText], .inr rfl⟩
    · obtain ⟨line, hline, htext⟩ := ih hmore
      refine ⟨⟨c :: line.text, line.ending⟩, ?_, ?_⟩
      · rw [List.cons_append, ofText, hline]
        · rfl
        · exact Ne.symm hc
        · -- a line feed directly behind a carriage return would be the one that ends the line
          intro back hc' hback
          refine hreturn ⟨hc', ?_⟩
          cases more with
          | nil => rfl
          | cons d more =>
            rw [List.cons_append] at hback
            exact absurd ((List.cons.inj hback).1 ▸ List.mem_cons_self) hmore
      · rcases htext with h | h
        · exact .inl (congrArg (c :: ·) h)
        · exact .inr (congrArg (c :: ·) h)

end Line

end SourceRepair
