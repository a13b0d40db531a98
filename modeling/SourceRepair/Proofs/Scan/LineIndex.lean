import SourceRepair.Proofs.PartitionPoint
import SourceRepair.Proofs.Scan.Places

/-!
# Lines and columns from an index of line starts

The place of a finding can be looked up by its byte offset alone, in a table of the offsets at which
the lines of the text start: the line is the last one that starts at or in front of the offset,
found by halves, and the column counts the characters from there on (`LineIndex.position`). Of an
offset in the text this gives the line and the column that are counted on the text in front of it
(`position_ofText`), so it gives back the place of each finding of a scan (`position_offsetIn`).
-/

namespace SourceRepair

open Text

/-- The offsets at which the lines of a text start. -/
structure LineIndex where
  starts : List Nat

namespace LineIndex

/-- The offsets behind the line feeds of a text that starts at `pos`. -/
def startsFrom (pos : Nat) : List Char → List Nat
  | [] => []
  | c :: rest =>
    if c = '\n' then (pos + 1) :: startsFrom (pos + 1) rest
    else startsFrom (pos + c.utf8Size) rest

/-- The first line starts at the start, and each other one behind a line feed. -/
def ofText (text : List Char) : LineIndex :=
  ⟨0 :: startsFrom 0 text⟩

/-- The line of an offset, and the column in characters; both are counted from one. -/
def position (index : LineIndex) (text : List Char) (offset : Nat) : Nat × Nat :=
  let line := partitionPoint (· ≤ offset) index.starts
  let start := index.starts.getD (line - 1) 0
  (line, (splitAtByte (offset - start) (splitAtByte start text).2).1.length + 1)

/-! ## The starts of lines -/

variable {pos : Nat}

theorem startsFrom_append (pos : Nat) (front back : List Char) : startsFrom pos (front ++ back)
    = startsFrom pos front ++ startsFrom (pos + utf8Size front) back := by
  induction front generalizing pos with
  | nil => rfl
  | cons c front ih =>
    rw [List.cons_append, startsFrom, startsFrom, utf8Size_cons, ← Nat.add_assoc, ih, ih]
    split
    · rename_i hc
      subst hc
      rfl
    · rfl

/-- A line starts behind the place where the text starts, and not behind its end. -/
theorem bounds_of_mem_startsFrom (text : List Char) :
    ∀ start ∈ startsFrom pos text, pos < start ∧ start ≤ pos + utf8Size text := by
  induction text generalizing pos with
  | nil => exact fun start hstart => absurd hstart List.not_mem_nil
  | cons c rest ih =>
    intro start hstart
    have hpos := c.utf8Size_pos
    rw [utf8Size_cons]
    rw [startsFrom] at hstart
    split at hstart
    · rename_i hc
      have hone : c.utf8Size = 1 := by rw [hc]; rfl
      rcases List.mem_cons.mp hstart with rfl | hstart
      · omega
      · have := ih start hstart
        omega
    · have := ih start hstart
      omega

/-- Lines start one behind the other. -/
theorem startsFrom_pairwise (pos : Nat) (text : List Char) :
    (startsFrom pos text).Pairwise (· < ·) := by
  induction text generalizing pos with
  | nil => exact List.Pairwise.nil
  | cons c rest ih =>
    rw [startsFrom]
    split
    · exact List.pairwise_cons.mpr
        ⟨fun start hstart => (bounds_of_mem_startsFrom rest start hstart).1, ih _⟩
    · exact ih _

/-- A line starts for each line feed. -/
theorem length_startsFrom (pos : Nat) (text : List Char) :
    (startsFrom pos text).length = text.count '\n' := by
  induction text generalizing pos with
  | nil => rfl
  | cons c rest ih =>
    rw [startsFrom, List.count_cons]
    by_cases hc : c = '\n' <;> simp [hc, ih]

/-- Behind full lines starts the line that their line feeds tell. -/
theorem getElem?_starts {above : List Char} (hlast : ∀ c ∈ above.getLast?, c = '\n')
    (back : List Char) :
    (ofText (above ++ back)).starts[above.count '\n']? = some (utf8Size above) := by
  rcases List.eq_nil_or_concat' above with rfl | ⟨lines, c, rfl⟩
  · rfl
  · obtain rfl := hlast c (by simp)
    have hstarts : (ofText (lines ++ ['\n'] ++ back)).starts = (0 :: startsFrom 0 lines)
        ++ utf8Size (lines ++ ['\n']) :: startsFrom (utf8Size (lines ++ ['\n'])) back := by
      have hend : startsFrom (utf8Size lines) ['\n'] = [utf8Size (lines ++ ['\n'])] := by
        rw [utf8Size_append]
        rfl
      rw [ofText, startsFrom_append, startsFrom_append, Nat.zero_add, Nat.zero_add, hend]
      simp
    have hcount : (lines ++ ['\n']).count '\n' = (0 :: startsFrom 0 lines).length := by
      rw [List.length_cons, length_startsFrom, List.count_append, List.count_singleton_self]
    rw [hstarts, hcount, List.getElem?_append_right (Nat.le_refl _), Nat.sub_self,
      List.getElem?_cons_zero]

/-! ## Places -/

/-- Behind `front`, the line is found by halves that the line feeds in `front` tell. -/
theorem partitionPoint_ofText (front back : List Char) :
    partitionPoint (· ≤ utf8Size front) (ofText (front ++ back)).starts
      = front.count '\n' + 1 := by
  have hsorted : (ofText (front ++ back)).starts.Pairwise (· < ·) :=
    List.pairwise_cons.mpr ⟨fun start hstart => (bounds_of_mem_startsFrom _ start hstart).1,
      startsFrom_pairwise 0 _⟩
  have hfront : ∀ start ∈ 0 :: startsFrom 0 front, decide (start ≤ utf8Size front) = true := by
    refine List.forall_mem_cons.mpr ⟨decide_eq_true (Nat.zero_le _), fun start hstart => ?_⟩
    have := (bounds_of_mem_startsFrom front start hstart).2
    exact decide_eq_true (by omega)
  have hback : ∀ start ∈ startsFrom (0 + utf8Size front) back,
      ¬decide (start ≤ utf8Size front) = true := by
    intro start hstart
    have := (bounds_of_mem_startsFrom back start hstart).1
    rw [decide_eq_true_eq]
    omega
  rw [partitionPoint_eq_countP (hsorted.imp fun hab hb => decide_eq_true
      (Nat.le_trans (Nat.le_of_lt hab) (of_decide_eq_true hb))),
    ofText, startsFrom_append, ← List.cons_append, List.countP_append,
    List.countP_eq_length.mpr hfront, List.countP_eq_zero.mpr hback, List.length_cons,
    length_startsFrom, Nat.add_zero]

/-- Looked up in the index, a place in a text has the line and the column that are counted on the
text in front of it. -/
theorem position_ofText {text before rest : List Char} (htext : text = before.reverse ++ rest) :
    (ofText text).position text (utf8Size before) = (lineAfter before, columnAfter before) := by
  obtain ⟨above, onLine, hfront, hlast, honLine, hcount, hlength⟩ :=
    exists_above_onLine before.reverse
  rw [List.reverse_reverse] at hlength
  have hline : partitionPoint (· ≤ utf8Size before) (ofText text).starts = lineAfter before := by
    rw [htext, ← utf8Size_reverse, partitionPoint_ofText, List.count_reverse, lineAfter]
  have hstart : (ofText text).starts.getD (lineAfter before - 1) 0 = utf8Size above := by
    have hindex := getElem?_starts hlast (onLine ++ rest)
    rw [lineAfter, Nat.add_sub_cancel, ← List.count_reverse, hcount, htext, hfront,
      List.append_assoc, List.getD_eq_getElem?_getD, hindex, Option.getD_some]
  have hsize : utf8Size before - utf8Size above = utf8Size onLine := by
    rw [← utf8Size_reverse, hfront, utf8Size_append, Nat.add_sub_cancel_left]
  rw [position, hline, hstart, hsize, htext, hfront, List.append_assoc, splitAtByte_utf8Size,
    splitAtByte_utf8Size, columnAfter, hlength]

/-- Each finding of a scan has the line and the column that the index gives for its offset. -/
theorem position_offsetIn {rules : List Rule} {text : List Char} {finding : Finding}
    (h : finding ∈ scan rules text) :
    (ofText text).position text (finding.offsetIn text)
      = (finding.line, finding.column) := by
  rw [scan, List.mem_mergeSort, List.mem_flatMap] at h
  obtain ⟨rule, -, hfinding⟩ := h
  obtain ⟨m, hm, rfl⟩ := List.mem_map.mp hfinding
  have htext := (Rule.of_mem_codeMatches hm).2.1
  rw [Finding.offsetIn_ofMatch rule htext]
  exact position_ofText htext

end LineIndex
end SourceRepair
