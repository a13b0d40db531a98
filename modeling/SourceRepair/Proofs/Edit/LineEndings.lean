import SourceRepair.Proofs.Edit.Splicing
import SourceRepair.Proofs.Text.Returns
import SourceRepair.Rule.Literal

/-!
# Repairs do not depend on the kind of line ends

A plan is made from the texts of the lines alone, so it is the same whatever the lines end in. The
splice gives new lines the terminator of the line that they replace, or one that is in use elsewhere
in the file. In a file with only one kind of terminator it is always that one, and
`fixContent_withReturns` says that a file with carriage returns is repaired into what the same file
without them is repaired into.

The file has to have a line end at all: new lines in a file without one end in line feeds, for want
of anything to go by.
-/

namespace SourceRepair

namespace Line

/-- A terminator is missing with carriage returns if it is without. -/
theorem withReturn_eq_missing_iff {ending : Ending} :
    ending.withReturn = .missing ↔ ending = .missing := by
  cases ending <;> simp [Ending.withReturn]

variable {edits : List PlannedEdit} {common : Ending} {lines : List Line}

/-! ## The splice with the other terminators -/

/-- The common terminator is the same but for its carriage return, if the file has one. -/
theorem commonEnding_map_withReturn (h : ∃ line ∈ lines, line.ending ≠ .missing) :
    commonEnding (lines.map withReturn) = (commonEnding lines).withReturn := by
  obtain ⟨line, hline, hending⟩ := h
  have hmap : (lines.map withReturn).map (·.ending)
      = (lines.map (·.ending)).map Ending.withReturn := by
    rw [List.map_map, List.map_map]
    rfl
  have hsome : ((lines.map (·.ending)).find? (· != .missing)).isSome := by
    rw [List.find?_isSome]
    exact ⟨line.ending, List.mem_map_of_mem hline, by simpa using hending⟩
  obtain ⟨first, hfirst⟩ := Option.isSome_iff_exists.mp hsome
  have hfind : (fun ending : Ending => ending.withReturn != .missing) = (· != .missing) := by
    funext ending
    cases ending <;> rfl
  rw [commonEnding, commonEnding, hmap, List.find?_map]
  show (((lines.map (·.ending)).find? fun ending => ending.withReturn != .missing).map
    Ending.withReturn).getD .lineFeed = _
  rw [hfind, hfirst]
  rfl

/-- New lines get the terminators with carriage returns. -/
theorem map_withReturn_terminated (inner final : Ending) (texts : List (List Char)) :
    (terminated inner final texts).map withReturn
      = terminated inner.withReturn final.withReturn texts := by
  have hendings : List.replicate (texts.length - 1) inner.withReturn ++ [final.withReturn]
      = (List.replicate (texts.length - 1) inner ++ [final]).map Ending.withReturn := by
    rw [List.map_append, List.map_replicate, List.map_singleton]
  rw [terminated, terminated, hendings, List.map_zipWith, List.zipWith_map_right]
  rfl

/-- What becomes of a line does not depend on the kind of its terminator. -/
theorem becomes_withReturn (line : Line) (number : Nat) :
    becomes edits common.withReturn line.withReturn number
      = (becomes edits common line number).map withReturn := by
  rw [becomes, becomes]
  split
  · rfl
  · rename_i edit _
    split
    · rw [map_withReturn_terminated, withReturn_ending]
      by_cases h : line.ending = .missing
      · rw [if_pos h, if_pos (withReturn_eq_missing_iff.mpr h)]
      · rw [if_neg h, if_neg (mt withReturn_eq_missing_iff.mp h)]
    · rfl

/-- Nor does what becomes of all lines. -/
theorem replaceFrom_map_withReturn (start : Nat) :
    replaceFrom edits common.withReturn start (lines.map withReturn)
      = (replaceFrom edits common start lines).map withReturn := by
  induction lines generalizing start with
  | nil => rfl
  | cons line more ih =>
    rw [List.map_cons, replaceFrom_cons, replaceFrom_cons, becomes_withReturn, ih, List.map_append]

/-- All ranges replaced, in a file that has a line end: the terminators alone are different. -/
theorem replaceRanges_map_withReturn (h : ∃ line ∈ lines, line.ending ≠ .missing) :
    replaceRanges edits (lines.map withReturn) = (replaceRanges edits lines).map withReturn := by
  rw [replaceRanges, replaceRanges, commonEnding_map_withReturn h, replaceFrom_map_withReturn]

/-! ## What the lines are after a splice -/

/-- A line that stands where a line stood is that line, or it is a line of a replacement and has its
terminator from the line or from the file. -/
theorem mem_becomes {line new : Line} {number : Nat} (h : new ∈ becomes edits common line number) :
    new = line ∨ ((∃ edit ∈ edits, new.text ∈ edit.replacement) ∧
      (new.ending = common ∨ new.ending = line.ending)) := by
  rw [becomes] at h
  split at h
  · exact Or.inl (List.mem_singleton.mp h)
  · rename_i edit hedit
    split at h
    · right
      obtain ⟨text, htext, ending, hending, rfl⟩ : ∃ text ∈ edit.replacement,
          ∃ ending ∈ List.replicate (edit.replacement.length - 1)
            (if line.ending = .missing then common else line.ending) ++ [line.ending],
          new = ⟨text, ending⟩ := by
        rw [terminated, ← List.map_uncurry_zip_eq_zipWith] at h
        obtain ⟨⟨text, ending⟩, hpair, rfl⟩ := List.mem_map.mp h
        exact ⟨text, (List.of_mem_zip hpair).1, ending, (List.of_mem_zip hpair).2, rfl⟩
      refine ⟨⟨edit, List.mem_of_find?_eq_some hedit, htext⟩, ?_⟩
      rcases List.mem_append.mp hending with hinner | hfinal
      · obtain rfl := List.eq_of_mem_replicate hinner
        by_cases hmissing : line.ending = .missing
        · exact Or.inl (if_pos hmissing)
        · exact Or.inr (if_neg hmissing)
      · exact Or.inr (List.mem_singleton.mp hfinal)
    · exact absurd h List.not_mem_nil

/-- What holds of the lines of a file, of the new lines and of the common terminator holds of the
lines after a splice. -/
theorem forall_mem_replaceRanges (goodText : List Char → Prop) (goodEnding : Ending → Prop)
    (hlines : ∀ line ∈ lines, goodText line.text ∧ goodEnding line.ending)
    (hedits : ∀ edit ∈ edits, ∀ text ∈ edit.replacement, goodText text)
    (hcommon : goodEnding (commonEnding lines)) :
    ∀ line ∈ replaceRanges edits lines, goodText line.text ∧ goodEnding line.ending := by
  intro new hnew
  obtain ⟨⟨line, number⟩, hline, hbecomes⟩ := List.mem_flatMap.mp hnew
  have hmem : line ∈ lines := List.fst_mem_of_mem_zipIdx hline
  rcases mem_becomes hbecomes with rfl | ⟨⟨edit, hedit, htext⟩, hending⟩
  · exact hlines new hmem
  · refine ⟨hedits edit hedit new.text htext, ?_⟩
    rcases hending with hending | hending
    · rw [hending]
      exact hcommon
    · rw [hending]
      exact (hlines line hmem).2

/-- The common terminator is one of the file's, or a line feed. -/
theorem commonEnding_mem (lines : List Line) :
    commonEnding lines = .lineFeed ∨ ∃ line ∈ lines, line.ending = commonEnding lines := by
  rw [commonEnding]
  cases h : (lines.map (·.ending)).find? (· != .missing) with
  | none => exact Or.inl rfl
  | some ending => exact Or.inr (List.mem_map.mp (List.mem_of_find?_eq_some h))

/-- A text with a line feed has a line with a terminator. -/
theorem exists_ending_ne_missing {text : List Char} (h : '\n' ∈ text) :
    ∃ line ∈ ofText text, line.ending ≠ .missing := by
  by_contra hnone
  push Not at hnone
  rw [← render_ofText text] at h
  obtain ⟨line, hline, hmem⟩ := List.mem_flatMap.mp h
  rw [toList, hnone line hline] at hmem
  exact lineFeed_not_mem_of_mem_ofText text line hline (by simpa [Ending.toList] using hmem)

end Line

/-! ## Whole files -/

namespace Catalog

/-- A plan depends on the texts of the lines only. -/
theorem edits_withReturns {content : List Char} (hreturn : '\r' ∉ content) (catalog : Catalog)
    (file : Path) (batch : List Diagnostic) :
    (catalog.fixContent file (Text.withReturns content) batch).edits
      = (catalog.fixContent file content batch).edits := by
  show catalog.planEdits ((Line.ofText (Text.withReturns content)).map (·.text)) batch = _
  rw [Line.ofText_withReturns hreturn, Line.map_text_withReturn]
  rfl

/-- A file with carriage returns is repaired by the same edits as the file without them, and into
the same content but for the carriage returns. -/
theorem fixContent_withReturns {content : List Char} (hreturn : '\r' ∉ content)
    (hlineFeed : '\n' ∈ content) (catalog : Catalog) (file : Path) (batch : List Diagnostic) :
    let plain := catalog.fixContent file content batch
    let withReturns := catalog.fixContent file (Text.withReturns content) batch
    withReturns.edits = plain.edits ∧ withReturns.rules = plain.rules ∧
      withReturns.finalContent = Text.withReturns plain.finalContent := by
  have hedits := edits_withReturns hreturn catalog file batch
  refine ⟨hedits, by rw [EditResult.rules, EditResult.rules, hedits], ?_⟩
  have hlines : ∀ line ∈ Line.ofText content,
      '\n' ∉ line.text ∧ line.ending ≠ .carriageReturnLineFeed := fun line hline =>
    ⟨Line.lineFeed_not_mem_of_mem_ofText content line hline,
      Line.ending_ne_of_return_not_mem hreturn line hline⟩
  have hcommon : Line.commonEnding (Line.ofText content) ≠ .carriageReturnLineFeed := by
    rcases Line.commonEnding_mem (Line.ofText content) with h | ⟨line, hline, h⟩
    · rw [h]
      decide
    · rw [← h]
      exact (hlines line hline).2
  have hnew : ∀ edit ∈ (catalog.fixContent file content batch).edits,
      ∀ text ∈ edit.replacement, '\n' ∉ text := fun edit hedit =>
    (wellFormed_of_mem_planEdits hedit).replacement_singleLine
  have hspliced := Line.forall_mem_replaceRanges ('\n' ∉ ·) (· ≠ .carriageReturnLineFeed) hlines
    hnew hcommon
  rw [finalContent_fixContent, finalContent_fixContent, hedits, Line.ofText_withReturns hreturn,
    Line.replaceRanges_map_withReturn (Line.exists_ending_ne_missing hlineFeed)]
  exact Line.render_map_withReturn (fun line hline => (hspliced line hline).1)
    fun line hline => (hspliced line hline).2

/-- The last line, which has no terminator, is broken in two by a rule that puts a line feed behind
a match; the new terminator is that of the first line. -/
theorem fixContent_withReturns_lastLine :
    '\r' ∉ "a\nbc".toList ∧ '\n' ∈ "a\nbc".toList ∧
      let catalog := ofPlainRules [{ name := "break", text := "b", fixer := some .newline }]
      let batch : List Diagnostic := [⟨⟨"a.ts"⟩, 2, 1, "TS1005", ""⟩]
      let plain := catalog.fixContent ⟨"a.ts"⟩ "a\nbc".toList batch
      let withReturns := catalog.fixContent ⟨"a.ts"⟩ (Text.withReturns "a\nbc".toList) batch
      withReturns.edits = plain.edits ∧ withReturns.rules = plain.rules ∧
        withReturns.finalContent = Text.withReturns plain.finalContent :=
  ⟨by decide, by decide, fixContent_withReturns (by decide) (by decide) _ ⟨"a.ts"⟩ _⟩

end Catalog
end SourceRepair
