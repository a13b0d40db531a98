import SourceRepair.Text.Basic

/-!
# Cutting a text in two

Where a text is cut is known from the bytes in front of the cut (`splitAtByte_utf8Size`,
`exists_of_append_eq_append`), from a line feed at the cut if there is no other
(`eq_of_append_lineFeed_eq`), or from the characters of a kind that go on up to the cut and no
further (`eq_of_run_append_eq`).
-/

namespace SourceRepair.Text

/-- Every character takes a byte at least. -/
theorem length_le_utf8Size (text : List Char) : text.length ≤ utf8Size text := by
  induction text with
  | nil => exact Nat.le_refl 0
  | cons c rest ih =>
    have := c.utf8Size_pos
    rw [utf8Size_cons, List.length_cons]
    omega

/-- Only the empty text takes no bytes. -/
theorem eq_nil_of_utf8Size_eq_zero {text : List Char} (h : utf8Size text = 0) : text = [] :=
  List.eq_nil_of_length_eq_zero (Nat.le_zero.mp (h ▸ length_le_utf8Size text))

/-- The size of a text does not depend on the direction it is read in. -/
@[simp] theorem utf8Size_reverse (text : List Char) : utf8Size text.reverse = utf8Size text := by
  induction text with
  | nil => rfl
  | cons c rest ih =>
    rw [List.reverse_cons, utf8Size_append, ih, utf8Size_cons, utf8Size_cons, utf8Size_nil]
    omega

theorem utf8Size_concat (text : List Char) (c : Char) :
    utf8Size (text ++ [c]) = utf8Size text + c.utf8Size := by
  rw [utf8Size_append, utf8Size_cons, utf8Size_nil, Nat.add_zero]

/-- A cut behind a first part gives the two parts back. -/
theorem splitAtByte_utf8Size (front back : List Char) :
    splitAtByte (utf8Size front) (front ++ back) = (front, back) := by
  induction front with
  | nil => cases back <;> simp [splitAtByte]
  | cons c rest ih =>
    have hpos := c.utf8Size_pos
    have hne : utf8Size (c :: rest) ≠ 0 := by
      rw [utf8Size_cons]
      omega
    have hrest : utf8Size (c :: rest) - c.utf8Size = utf8Size rest := by
      rw [utf8Size_cons]
      omega
    rw [List.cons_append, splitAtByte, if_neg hne, hrest, ih]

/-- Of two ways to cut a text, the one that cuts later has the first part of the other in front. -/
theorem exists_of_append_eq_append {front back front' back' : List Char}
    (h : front ++ back = front' ++ back') (hle : utf8Size front ≤ utf8Size front') :
    ∃ between, front' = front ++ between ∧ back = between ++ back' := by
  rcases List.append_eq_append_iff.mp h with ⟨between, hfront, hback⟩ | ⟨between, hfront, hback⟩
  · exact ⟨between, hfront, hback⟩
  · have hsize : utf8Size front = utf8Size front' + utf8Size between := by
      rw [hfront, utf8Size_append]
    have hbetween : between = [] := eq_nil_of_utf8Size_eq_zero (by omega)
    subst hbetween
    exact ⟨[], by simpa using hfront.symm, by simpa using hback.symm⟩

/-- A text is cut in one way only behind a number of bytes. -/
theorem eq_of_append_eq_append {front back front' back' : List Char}
    (h : front ++ back = front' ++ back') (hsize : utf8Size front = utf8Size front') :
    front = front' ∧ back = back' := by
  obtain ⟨between, hfront, hback⟩ := exists_of_append_eq_append h (Nat.le_of_eq hsize)
  have hbetween : between = [] := eq_nil_of_utf8Size_eq_zero (by
    rw [hfront, utf8Size_append] at hsize
    omega)
  subst hbetween
  exact ⟨by simpa using hfront.symm, hback⟩

/-- The first characters of a text take as many bytes as a first part of it only if they are that
part. -/
theorem utf8Size_take_eq_iff {text front back : List Char} (htext : text = front ++ back)
    (count : Nat) :
    utf8Size (text.take count) = utf8Size front ↔ min count text.length = front.length := by
  constructor
  · intro h
    have hcut : text.take count ++ text.drop count = front ++ back :=
      (List.take_append_drop ..).trans htext
    rw [← List.length_take, (eq_of_append_eq_append hcut h).1]
  · intro h
    rw [List.take_eq_take_min, h, htext, List.take_left]

/-- A character of two texts in a row stands in the first one or in the second one. -/
theorem split_of_append_eq_append_cons {front back before after : List Char} {c : Char}
    (h : front ++ back = before ++ c :: after) :
    (∃ inner, front = before ++ c :: inner ∧ after = inner ++ back) ∨
      ∃ inner, before = front ++ inner ∧ back = inner ++ c :: after := by
  rcases List.append_eq_append_iff.mp h with ⟨inner, hbefore, hback⟩ | ⟨inner, hfront, hafter⟩
  · exact Or.inr ⟨inner, hbefore, hback⟩
  · cases inner with
    | nil => exact Or.inr ⟨[], by simp [hfront], by simpa using hafter.symm⟩
    | cons d inner =>
      obtain ⟨rfl, hinner⟩ := List.cons.inj hafter
      exact Or.inl ⟨inner, hfront, hinner⟩

/-- A run of characters of a kind ends in one place only, at the first character of another kind. -/
theorem eq_of_run_append_eq {kind : Char → Prop} {front back front' back' : List Char} {c d : Char}
    (h : front ++ c :: back = front' ++ d :: back') (hfront : ∀ a ∈ front, kind a)
    (hfront' : ∀ a ∈ front', kind a) (hc : ¬kind c) (hd : ¬kind d) :
    front = front' ∧ c = d ∧ back = back' := by
  rcases split_of_append_eq_append_cons h with ⟨inner, rfl, -⟩ | ⟨inner, rfl, hback⟩
  · exact absurd (hfront d (by simp)) hd
  · cases inner with
    | nil =>
      obtain ⟨rfl, rfl⟩ := List.cons.inj hback
      exact ⟨(List.append_nil front).symm, rfl, rfl⟩
    | cons e inner =>
      obtain ⟨rfl, -⟩ := List.cons.inj hback
      exact absurd (hfront' c (by simp)) hc

/-- The same where nothing may follow the run. -/
theorem eq_of_whole_run_append_eq {kind : Char → Prop} {front back front' back' : List Char}
    (h : front ++ back = front' ++ back') (hfront : ∀ a ∈ front, kind a)
    (hfront' : ∀ a ∈ front', kind a) (hback : ∀ c ∈ back.head?, ¬kind c)
    (hback' : ∀ c ∈ back'.head?, ¬kind c) : front = front' ∧ back = back' := by
  rcases List.append_eq_append_iff.mp h with ⟨inner, rfl, rfl⟩ | ⟨inner, rfl, rfl⟩
  · cases inner with
    | nil => exact ⟨(List.append_nil front).symm, rfl⟩
    | cons c inner => exact absurd (hfront' c (by simp)) (hback c rfl)
  · cases inner with
    | nil => exact ⟨List.append_nil front', rfl⟩
    | cons c inner => exact absurd (hfront c (by simp)) (hback' c rfl)

/-- A single character can only be cut out as a whole. -/
theorem eq_of_singleton_eq_append {c d : Char} {front back : List Char}
    (h : [d] = front ++ c :: back) : c = d ∧ front = [] ∧ back = [] := by
  cases front with
  | nil =>
    obtain ⟨hc, hback⟩ := List.cons.inj h
    exact ⟨hc.symm, rfl, hback.symm⟩
  | cons e front =>
    obtain ⟨-, hrest⟩ := List.cons.inj h
    exact absurd hrest (by simp)

/-- A character cut out of two is the first of them or the last. -/
theorem eq_of_pair_eq_append {c d e : Char} {front back : List Char}
    (h : [d, e] = front ++ c :: back) : c = d ∨ (c = e ∧ back = []) := by
  cases front with
  | nil =>
    obtain ⟨hc, -⟩ := List.cons.inj h
    exact Or.inl hc.symm
  | cons f front =>
    obtain ⟨-, hrest⟩ := List.cons.inj h
    obtain ⟨hc, -, hback⟩ := eq_of_singleton_eq_append hrest
    exact Or.inr ⟨hc, hback⟩

/-- Two texts with a line feed between them that hold none themselves are known from the whole. -/
theorem eq_of_append_lineFeed_eq {front back front' back' : List Char}
    (h : front ++ '\n' :: back = front' ++ '\n' :: back') (hfront : '\n' ∉ front)
    (hback : '\n' ∉ back) : front' = front ∧ back' = back := by
  rcases List.append_eq_append_iff.mp h with ⟨between, hfront', hrest⟩ | ⟨between, hfront', hrest⟩
  · cases between with
    | nil => exact ⟨by simpa using hfront', by simpa using hrest.symm⟩
    | cons c between =>
      obtain ⟨-, rfl⟩ := List.cons.inj hrest
      exact absurd (List.mem_append_right between List.mem_cons_self) hback
  · cases between with
    | nil => exact ⟨by simpa using hfront'.symm, by simpa using hrest⟩
    | cons c between =>
      obtain ⟨rfl, -⟩ := List.cons.inj hrest
      exact absurd (hfront' ▸ List.mem_append_right front' List.mem_cons_self) hfront

/-- A text stands in every text that is put together with it. -/
theorem occurs_append (front part back : List Char) :
    occurs part (front ++ (part ++ back)) = true := by
  induction front with
  | nil =>
    rw [List.nil_append]
    cases hwhole : part ++ back with
    | nil =>
      rw [(List.append_eq_nil_iff.mp hwhole).1]
      rfl
    | cons c rest =>
      rw [occurs, ← hwhole, List.isPrefixOf_iff_prefix.mpr (List.prefix_append part back)]
      rfl
  | cons c front ih => rw [List.cons_append, occurs, ih, Bool.or_true]

theorem not_infix_of_occurs {part text : List Char} (h : occurs part text = false) :
    ¬part <:+: text := by
  rintro ⟨front, back, rfl⟩
  rw [List.append_assoc, occurs_append] at h
  exact absurd h (by simp)

end SourceRepair.Text
