import SourceRepair.Text.Line

/-!
# The lines of a text

A line holds no line feed, and only the last line can lack its terminator. So every line of a text
begins at the start of the text or behind a line feed, and what follows it is a line end or nothing:
`text_eq_around` puts a line back into the text that it was read from.
-/

namespace SourceRepair

/-- What follows a line: nothing, or a line end. -/
def BreaksLine (tail : List Char) : Prop :=
  ∀ c ∈ tail.head?, c = '\n' ∨ c = '\r'

namespace Line

/-- Only the last line of a text can lack its terminator. -/
theorem ending_ne_missing_of_mem_dropLast (text : List Char) :
    ∀ line ∈ (ofText text).dropLast, line.ending ≠ .missing := by
  fun_induction ofText text with
  | case1 => simp
  | case2 rest ih => cases h : ofText rest <;> simp_all
  | case3 rest ih => cases h : ofText rest <;> simp_all
  | case4 c rest _ _ ih =>
    -- the character goes to the first line, which keeps its terminator
    cases h : ofText rest with
    | nil => simp [extend]
    | cons line more => cases more <;> simp_all [extend]

/-- A line holds no line feed. -/
theorem lineFeed_not_mem_of_mem_ofText (text : List Char) :
    ∀ line ∈ ofText text, '\n' ∉ line.text := by
  fun_induction ofText text with
  | case1 => simp
  | case2 rest ih => simpa using ih
  | case3 rest ih => simpa using ih
  | case4 c rest hlineFeed _ ih =>
    have hc : '\n' ≠ c := Ne.symm hlineFeed
    cases h : ofText rest with
    | nil => simpa [extend] using hc
    | cons line more =>
      rw [h, List.forall_mem_cons] at ih
      rw [extend, List.forall_mem_cons]
      refine ⟨?_, ih.2⟩
      rw [List.mem_cons, not_or]
      exact ⟨hc, ih.1⟩

/-- A line that ends in a line feed alone does not end in a carriage return. -/
theorem getLast?_ne_of_mem_ofText (text : List Char) :
    ∀ line ∈ ofText text, line.ending = .lineFeed → line.text.getLast? ≠ some '\r' := by
  fun_induction ofText text with
  | case1 => simp
  | case2 rest ih => simpa using ih
  | case3 rest ih => simpa using ih
  | case4 c rest _ hreturn ih =>
    cases h : ofText rest with
    | nil => simp [extend]
    | cons line more =>
      rw [h, List.forall_mem_cons] at ih
      rw [extend, List.forall_mem_cons]
      refine ⟨fun hending hlast => ?_, ih.2⟩
      rcases hline : line.text with _ | ⟨d, front⟩
      · -- the line was the line feed alone, so the character is no carriage return
        have hrest : rest = '\n' :: render more := by
          rw [← render_ofText rest, h, render_cons, hline, hending]
          rfl
        rw [hline] at hlast
        exact hreturn _ (Option.some.inj hlast) hrest
      · apply ih.1 hending
        rw [hline] at hlast ⊢
        rwa [List.getLast?_cons_cons] at hlast

/-- Every line has a text or a terminator. -/
theorem toList_ne_of_mem_ofText (text : List Char) : ∀ line ∈ ofText text, line.toList ≠ [] := by
  fun_induction ofText text with
  | case1 => simp
  | case2 rest ih => simpa [toList, Ending.toList] using ih
  | case3 rest ih => simpa [toList, Ending.toList] using ih
  | case4 c rest _ _ ih => cases h : ofText rest <;> simp_all [extend, toList]

/-- Lines as they are read from a text: every line is something, none holds a line feed, one that
ends in a line feed alone does not end in a carriage return, and only the last one can lack its
terminator. -/
structure AsRead (lines : List Line) : Prop where
  toList_ne : ∀ line ∈ lines, line.toList ≠ []
  lineFeed_not_mem : ∀ line ∈ lines, '\n' ∉ line.text
  getLast?_ne : ∀ line ∈ lines, line.ending = .lineFeed → line.text.getLast? ≠ some '\r'
  ending_ne : ∀ line ∈ lines.dropLast, line.ending ≠ .missing

/-- The lines of a text are as read. -/
theorem asRead_ofText (text : List Char) : AsRead (ofText text) :=
  ⟨toList_ne_of_mem_ofText text, lineFeed_not_mem_of_mem_ofText text,
    getLast?_ne_of_mem_ofText text, ending_ne_missing_of_mem_dropLast text⟩

/-- Behind the first line they still are. -/
theorem AsRead.tail {line : Line} {more : List Line} (h : AsRead (line :: more)) : AsRead more where
  toList_ne l hl := h.toList_ne l (List.mem_cons_of_mem line hl)
  lineFeed_not_mem l hl := h.lineFeed_not_mem l (List.mem_cons_of_mem line hl)
  getLast?_ne l hl := h.getLast?_ne l (List.mem_cons_of_mem line hl)
  ending_ne l hl := by
    cases more with
    | nil => exact absurd hl List.not_mem_nil
    | cons next more => exact h.ending_ne l (List.mem_cons_of_mem line hl)

/-- A line without a terminator is the last one. -/
theorem AsRead.eq_nil_of_missing {line : Line} {more : List Line} (h : AsRead (line :: more))
    (hending : line.ending = .missing) : more = [] := by
  cases more with
  | nil => rfl
  | cons next more => exact absurd hending (h.ending_ne line List.mem_cons_self)

/-- Where the line with the given index starts, in bytes. -/
def startOf (lines : List Line) (index : Nat) : Nat :=
  Text.utf8Size (render (lines.take index))

/-- A line with a terminator ends in a line feed. -/
theorem exists_toList_eq {line : Line} (h : line.ending ≠ .missing) :
    ∃ front, line.toList = front ++ ['\n'] := by
  rw [toList]
  cases hending : line.ending with
  | missing => exact absurd hending h
  | lineFeed => exact ⟨line.text, rfl⟩
  | carriageReturnLineFeed => exact ⟨line.text ++ ['\r'], by simp [Ending.toList]⟩

/-- A line with a terminator ends at its only line feed. -/
theorem exists_toList_eq_append {line : Line} (hending : line.ending ≠ .missing)
    (hfeed : '\n' ∉ line.text) : ∃ front, line.toList = front ++ ['\n'] ∧ '\n' ∉ front := by
  rw [toList]
  cases h : line.ending with
  | missing => exact absurd h hending
  | lineFeed => exact ⟨line.text, rfl, hfeed⟩
  | carriageReturnLineFeed =>
    refine ⟨line.text ++ ['\r'], by simp [Ending.toList], ?_⟩
    simpa using hfeed

/-- Lines that all have terminators end in a line feed. -/
theorem render_endsInLineFeed {lines : List Line} (h : ∀ line ∈ lines, line.ending ≠ .missing) :
    render lines = [] ∨ ∃ above, render lines = above ++ ['\n'] := by
  rcases List.eq_nil_or_concat lines with rfl | ⟨above, last, rfl⟩
  · exact Or.inl rfl
  · obtain ⟨front, hfront⟩ := exists_toList_eq (h last (by simp))
    have hlast : render [last] = last.toList := List.append_nil _
    right
    rw [List.concat_eq_append, render_append, hlast, hfront, ← List.append_assoc]
    exact ⟨render above ++ front, rfl⟩

section Around

variable {text : List Char} {index : Nat} {line : Line}

/-- A line stands in its text between the lines above and, behind its terminator, those below. -/
theorem text_eq_around (h : (ofText text)[index]? = some line) :
    text = render ((ofText text).take index) ++
      (line.text ++ (line.ending.toList ++ render ((ofText text).drop (index + 1)))) := by
  obtain ⟨hlt, rfl⟩ := List.getElem?_eq_some_iff.mp h
  have hdrop : (ofText text)[index] :: (ofText text).drop (index + 1) = (ofText text).drop index :=
    List.getElem_cons_drop hlt
  rw [← List.append_assoc _ (Ending.toList _), ← render_cons, hdrop, ← render_append,
    List.take_append_drop, render_ofText]

/-- The lines above a line end in a line feed. -/
theorem render_take_endsInLineFeed (h : (ofText text)[index]? = some line) :
    render ((ofText text).take index) = [] ∨
      ∃ above, render ((ofText text).take index) = above ++ ['\n'] := by
  obtain ⟨hlt, -⟩ := List.getElem?_eq_some_iff.mp h
  have htake : (ofText text).take index = (ofText text).dropLast.take index := by
    rw [List.dropLast_eq_take, List.take_take, Nat.min_eq_left (Nat.le_sub_one_of_lt hlt)]
  refine render_endsInLineFeed fun above habove => ?_
  rw [htake] at habove
  exact ending_ne_missing_of_mem_dropLast text above (List.mem_of_mem_take habove)

/-- What follows a line is its terminator, or nothing. -/
theorem breaksLine_of_getElem? (h : (ofText text)[index]? = some line) :
    BreaksLine (line.ending.toList ++ render ((ofText text).drop (index + 1))) := by
  obtain ⟨hlt, hline⟩ := List.getElem?_eq_some_iff.mp h
  intro c hc
  cases hending : line.ending with
  | missing =>
    -- a line without a terminator is the last one
    have hlast : ¬ index < (ofText text).dropLast.length := fun hlt' => by
      have hmem : line ∈ (ofText text).dropLast := by
        rw [← hline, ← List.getElem_dropLast hlt']
        exact List.getElem_mem hlt'
      exact ending_ne_missing_of_mem_dropLast text line hmem hending
    rw [List.length_dropLast] at hlast
    have hdrop : (ofText text).drop (index + 1) = [] := List.drop_eq_nil_of_le (by omega)
    rw [hending, hdrop] at hc
    exact absurd hc (by simp [Ending.toList])
  | lineFeed =>
    rw [hending] at hc
    exact Or.inl (Option.some.inj hc).symm
  | carriageReturnLineFeed =>
    rw [hending] at hc
    exact Or.inr (Option.some.inj hc).symm

end Around

end Line
end SourceRepair
