import SourceRepair.Edit.Content
import SourceRepair.Proofs.Edit.Planning
import SourceRepair.Proofs.Text.Lines

/-!
# Splicing from the bottom up is one simultaneous replacement

`Line.replaceRanges` replaces all ranges of lines at once: it walks the original lines in order and
decides for each, by its original number alone, what becomes of it. `Line.applyEdits?` is the
splicing loop with every range checked against the lines as they stand at that moment.
`fixContent_eq_replaceRanges` says that for the edits of a plan no check fails and that both give
the same lines, which are the file's final content.

A splice leaves all lines above its range where they were, and the next edit lies wholly above it.
So the loop can be followed with the untouched beginning of the file on one side and everything
spliced so far on the other (`applyEdits?_append`). Only the file's last line can lack a terminator,
hence only the first splice may ask for the file's common terminator, and it does so while the lines
are still the original ones.
-/

namespace SourceRepair

/-- Whether line `number` is one of those that the edit replaces. -/
def PlannedEdit.covers (edit : PlannedEdit) (number : Nat) : Bool :=
  edit.firstLine ≤ number && number ≤ edit.lastLine

theorem PlannedEdit.covers_eq_true {edit : PlannedEdit} {number : Nat} :
    edit.covers number = true ↔ edit.firstLine ≤ number ∧ number ≤ edit.lastLine := by
  simp [covers]

theorem PlannedEdit.covers_eq_false {edit : PlannedEdit} {number : Nat} :
    edit.covers number = false ↔ number < edit.firstLine ∨ edit.lastLine < number := by
  rw [Bool.eq_false_iff, ne_eq, covers_eq_true]
  omega

/-- Whether the edit replaces at least one line, and only lines of a file of `count` lines. -/
def PlannedEdit.InRange (count : Nat) (edit : PlannedEdit) : Prop :=
  1 ≤ edit.firstLine ∧ edit.firstLine ≤ edit.lastLine ∧ edit.lastLine ≤ count

instance (count : Nat) (edit : PlannedEdit) : Decidable (edit.InRange count) :=
  inferInstanceAs (Decidable (_ ∧ _ ∧ _))

namespace Line

/-! ## The two readings of a plan -/

/-- The lines of the given texts; the last one ends in `final`, the others in `inner`. -/
def terminated (inner final : Ending) (texts : List (List Char)) : List Line :=
  texts.zipWith Line.mk (List.replicate (texts.length - 1) inner ++ [final])

/-- What becomes of line `number`: a line that no edit covers stays, the last line of a range
becomes the new lines, and the other lines of a range become nothing. The last new line takes over
the terminator, and so do the others unless it is missing; then they take `common`. -/
def becomes (edits : List PlannedEdit) (common : Ending) (line : Line) (number : Nat) : List Line :=
  match edits.find? (·.covers number) with
  | none => [line]
  | some edit =>
    if number = edit.lastLine then
      terminated (if line.ending = .missing then common else line.ending) line.ending
        edit.replacement
    else []

/-- The lines from number `start` on with all ranges replaced. -/
def replaceFrom (edits : List PlannedEdit) (common : Ending) (start : Nat) (lines : List Line) :
    List Line :=
  (lines.zipIdx start).flatMap fun (line, number) => becomes edits common line number

/-- The lines of a file with all ranges replaced at once. -/
def replaceRanges (edits : List PlannedEdit) (lines : List Line) : List Line :=
  replaceFrom edits (commonEnding lines) 1 lines

/-- Replaces the lines of one edit, if there are such lines. -/
def splice? (lines : List Line) (edit : PlannedEdit) : Option (List Line) :=
  if edit.InRange lines.length then some (splice lines edit) else none

/-- Replaces the lines of edits one after the other, as long as there are such lines. -/
def applyEdits? (edits : List PlannedEdit) (lines : List Line) : Option (List Line) :=
  edits.foldlM splice? lines

/-- The checks change nothing but whether there is a result. -/
theorem applyEdits_of_applyEdits? {edits : List PlannedEdit} {lines result : List Line}
    (h : applyEdits? edits lines = some result) : applyEdits edits lines = result := by
  induction edits generalizing lines with
  | nil => exact Option.some.inj h
  | cons edit more ih =>
    rw [applyEdits?, List.foldlM_cons] at h
    obtain ⟨spliced, hspliced, h⟩ := Option.bind_eq_some_iff.mp h
    rw [splice?] at hspliced
    split at hspliced
    · obtain rfl := Option.some.inj hspliced
      exact ih h
    · exact absurd hspliced (by simp)

/-- The terminators given out in a splice, written as one list. -/
theorem dress_eq_terminated (inner final : Ending) (texts : List (List Char)) :
    dress inner final texts = terminated inner final texts := by
  induction texts with
  | nil => rfl
  | cons text more ih =>
    cases more with
    | nil => rfl
    | cons next more =>
      rw [dress, ih]
      · rfl
      · simp

/-! ## Walking the original lines -/

variable {edits : List PlannedEdit} {common : Ending}

theorem replaceFrom_append (start : Nat) (front back : List Line) :
    replaceFrom edits common start (front ++ back)
      = replaceFrom edits common start front
        ++ replaceFrom edits common (start + front.length) back := by
  simp [replaceFrom, List.zipIdx_append]

theorem replaceFrom_cons (start : Nat) (line : Line) (lines : List Line) :
    replaceFrom edits common start (line :: lines)
      = becomes edits common line start ++ replaceFrom edits common (start + 1) lines := by
  simp [replaceFrom]

/-- Lines that no edit covers stay. -/
theorem replaceFrom_of_uncovered {start : Nat} {lines : List Line}
    (h : ∀ number, start ≤ number → number < start + lines.length →
      ∀ edit ∈ edits, edit.covers number = false) :
    replaceFrom edits common start lines = lines := by
  induction lines generalizing start with
  | nil => rfl
  | cons line more ih =>
    have hfind : edits.find? (·.covers start) = none :=
      List.find?_eq_none.mpr fun edit hedit => by
        simp [h start (Nat.le_refl _) (by simp) edit hedit]
    rw [replaceFrom_cons, becomes, hfind, ih fun number hle hlt => h number (by omega) (by
      rw [List.length_cons]; omega)]
    rfl

/-- An edit that covers none of the lines does not count for them, and neither does the common
terminator if none of them lacks its own. -/
theorem replaceFrom_congr {edit : PlannedEdit} (other : Ending) {start : Nat} {lines : List Line}
    (hedit : ∀ number, start ≤ number → number < start + lines.length →
      edit.covers number = false)
    (hended : ∀ line ∈ lines, line.ending ≠ .missing) :
    replaceFrom (edit :: edits) common start lines = replaceFrom edits other start lines := by
  induction lines generalizing start with
  | nil => rfl
  | cons line more ih =>
    have hfind : (edit :: edits).find? (·.covers start) = edits.find? (·.covers start) :=
      List.find?_cons_of_neg (by simp [hedit start (Nat.le_refl _) (by simp)])
    have hline : line.ending ≠ .missing := hended line List.mem_cons_self
    rw [replaceFrom_cons, replaceFrom_cons, ih
      (fun number hle hlt => hedit number (by omega) (by rw [List.length_cons]; omega))
      (fun line hmem => hended line (List.mem_cons_of_mem _ hmem))]
    rw [becomes, becomes, hfind, if_neg hline, if_neg hline]

/-- The lines of a range before its last one become nothing. -/
theorem replaceFrom_of_covered {edit : PlannedEdit} {start : Nat} {lines : List Line}
    (hfirst : edit.firstLine ≤ start) (hlast : start + lines.length ≤ edit.lastLine) :
    replaceFrom (edit :: edits) common start lines = [] := by
  induction lines generalizing start with
  | nil => rfl
  | cons line more ih =>
    rw [List.length_cons] at hlast
    have hfind : (edit :: edits).find? (·.covers start) = some edit :=
      List.find?_cons_of_pos (PlannedEdit.covers_eq_true.mpr (by omega))
    rw [replaceFrom_cons, becomes, hfind, ih (by omega) (by omega)]
    simp only [List.append_nil]
    rw [if_neg (by omega)]

/-! ## One splice -/

/-- The lines around an edit: those above its range, those of the range before the last one, the
last one, and those below. -/
structure Around (edit : PlannedEdit) (lines above inside : List Line) (last : Line)
    (below : List Line) : Prop where
  lines_eq : lines = above ++ (inside ++ last :: below)
  firstLine_eq : edit.firstLine = above.length + 1
  lastLine_eq : edit.lastLine = above.length + inside.length + 1

/-- An edit in range has lines around it. -/
theorem exists_around {edit : PlannedEdit} {lines : List Line} (h : edit.InRange lines.length) :
    ∃ above inside last below, Around edit lines above inside last below := by
  obtain ⟨hone, hle, hlength⟩ := h
  have hlast : edit.lastLine - 1 < lines.length := by omega
  refine ⟨lines.take (edit.firstLine - 1),
    (lines.take (edit.lastLine - 1)).drop (edit.firstLine - 1), lines[edit.lastLine - 1],
    lines.drop edit.lastLine, ?_, ?_, ?_⟩
  · have hbelow : lines[edit.lastLine - 1] :: lines.drop edit.lastLine
        = lines.drop (edit.lastLine - 1) := by
      rw [List.drop_eq_getElem_cons hlast]
      congr 2
      omega
    have hinside : lines.take (edit.firstLine - 1)
        ++ (lines.take (edit.lastLine - 1)).drop (edit.firstLine - 1)
        = lines.take (edit.lastLine - 1) := by
      have htake : lines.take (edit.firstLine - 1)
          = (lines.take (edit.lastLine - 1)).take (edit.firstLine - 1) := by
        rw [List.take_take, Nat.min_eq_left (by omega)]
      rw [htake, List.take_append_drop]
    rw [hbelow, ← List.append_assoc, hinside, List.take_append_drop]
  · rw [List.length_take, Nat.min_eq_left (by omega)]
    omega
  · rw [List.length_drop, List.length_take, List.length_take, Nat.min_eq_left (by omega),
      Nat.min_eq_left (by omega)]
    omega

section Around

variable {edit : PlannedEdit} {lines above inside below : List Line} {last : Line}

/-- A splice puts the new lines between the lines above and below the range. -/
theorem Around.splice?_append (h : Around edit lines above inside last below) (tail : List Line) :
    splice? (lines ++ tail) edit
      = some (above ++ (terminated
          (if last.ending = .missing then commonEnding (lines ++ tail) else last.ending)
          last.ending edit.replacement ++ (below ++ tail))) := by
  obtain ⟨hlines, hfirst, hlast⟩ := h
  have hrange : edit.InRange (lines ++ tail).length := by
    refine ⟨by omega, by omega, ?_⟩
    rw [hlines]
    simp only [List.length_append, List.length_cons]
    omega
  have htake : (lines ++ tail).take (edit.firstLine - 1) = above := by
    rw [hlines, hfirst, Nat.add_sub_cancel, List.append_assoc, List.take_left]
  have hget : (lines ++ tail)[edit.lastLine - 1]? = some last := by
    rw [hlines, hlast]
    simp
  have hdrop : (lines ++ tail).drop edit.lastLine = below ++ tail := by
    have hcount : edit.lastLine = (above ++ (inside ++ [last])).length := by
      simp only [List.length_append, List.length_singleton]
      omega
    have hsplit : lines ++ tail = (above ++ (inside ++ [last])) ++ (below ++ tail) := by
      rw [hlines]
      simp
    rw [hsplit, hcount, List.drop_left]
  rw [splice?, if_pos hrange, splice, htake, hget, hdrop, Option.map_some, Option.getD_some,
    dress_eq_terminated, List.append_assoc]

/-- The simultaneous replacement with one more edit, all others being above it. -/
theorem Around.replaceFrom_cons (h : Around edit lines above inside last below)
    (hlater : ∀ later ∈ edits, later.lastLine < edit.firstLine)
    (hended : ∀ line ∈ above, line.ending ≠ .missing) (other : Ending) :
    replaceFrom (edit :: edits) common 1 lines
      = replaceFrom edits other 1 above ++ (terminated
          (if last.ending = .missing then common else last.ending) last.ending edit.replacement
          ++ below) := by
  obtain ⟨hlines, hfirst, hlast⟩ := h
  have hcovers : (edit :: edits).find? (·.covers edit.lastLine) = some edit :=
    List.find?_cons_of_pos (PlannedEdit.covers_eq_true.mpr (by omega))
  have hbelow : ∀ number, edit.lastLine + 1 ≤ number →
      number < edit.lastLine + 1 + below.length →
      ∀ later ∈ edit :: edits, later.covers number = false := by
    intro number hle _ later hmem
    have hlt : later.lastLine < number := by
      rcases List.mem_cons.mp hmem with rfl | hmem
      · omega
      · have := hlater later hmem
        omega
    exact PlannedEdit.covers_eq_false.mpr (Or.inr hlt)
  have habove : ∀ number, 1 ≤ number → number < 1 + above.length → edit.covers number = false := by
    intro number _ hlt
    exact PlannedEdit.covers_eq_false.mpr (Or.inl (by omega))
  have hnumber : 1 + above.length + inside.length = edit.lastLine := by omega
  rw [hlines, replaceFrom_append, replaceFrom_append, Line.replaceFrom_cons, hnumber,
    replaceFrom_congr other habove hended, replaceFrom_of_covered (by omega) (by omega),
    replaceFrom_of_uncovered hbelow, becomes, hcovers, List.nil_append]
  simp only [if_true]

/-- Above the last line replaced there is no last line of the file. -/
theorem Around.above_subset_dropLast (h : Around edit lines above inside last below) :
    ∀ line ∈ above, line ∈ lines.dropLast := by
  intro line hline
  rw [h.lines_eq, List.dropLast_append_of_ne_nil (by simp)]
  exact List.mem_append_left _ hline

/-- An edit above the range lies in the lines above it. -/
theorem Around.inRange_above (h : Around edit lines above inside last below) {later : PlannedEdit}
    (hlater : later.lastLine < edit.firstLine) {count : Nat} (hrange : later.InRange count) :
    later.InRange above.length := by
  obtain ⟨hone, hle, -⟩ := hrange
  have hfirst := h.firstLine_eq
  exact ⟨hone, hle, by omega⟩

end Around

/-! ## All splices -/

/-- Splices above the end of some lines that all have terminators replace the ranges in those lines
and leave what follows as it is. -/
theorem applyEdits?_append (common : Ending) {lines : List Line} (tail : List Line)
    (hpairwise : edits.Pairwise fun edit later => later.lastLine < edit.firstLine)
    (hrange : ∀ edit ∈ edits, edit.InRange lines.length)
    (hended : ∀ line ∈ lines, line.ending ≠ .missing) :
    applyEdits? edits (lines ++ tail) = some (replaceFrom edits common 1 lines ++ tail) := by
  induction edits generalizing lines tail with
  | nil =>
    rw [replaceFrom_of_uncovered (by simp)]
    rfl
  | cons edit more ih =>
    obtain ⟨hlater, hpairwise⟩ := List.pairwise_cons.mp hpairwise
    obtain ⟨above, inside, last, below, h⟩ := exists_around (hrange edit List.mem_cons_self)
    have habove : ∀ line ∈ above, line.ending ≠ .missing := fun line hline =>
      hended line (List.dropLast_subset _ (h.above_subset_dropLast line hline))
    have hlast : last.ending ≠ .missing := hended last (by rw [h.lines_eq]; simp)
    have hmore : ∀ later ∈ more, later.InRange above.length := fun later hmem =>
      h.inRange_above (hlater later hmem) (hrange later (List.mem_cons_of_mem _ hmem))
    -- for the edits that follow, all that is spliced in belongs to the tail
    rw [applyEdits?, List.foldlM_cons, h.splice?_append tail]
    show applyEdits? more (above ++ _) = _
    rw [ih _ hpairwise hmore habove, h.replaceFrom_cons hlater habove common, if_neg hlast,
      if_neg hlast]
    simp only [List.append_assoc]

/-- Splicing from the bottom up, with every range checked, replaces all ranges of the original
lines at once. -/
theorem applyEdits?_eq_replaceRanges {lines : List Line}
    (hpairwise : edits.Pairwise fun edit later => later.lastLine < edit.firstLine)
    (hrange : ∀ edit ∈ edits, edit.InRange lines.length)
    (hended : ∀ line ∈ lines.dropLast, line.ending ≠ .missing) :
    applyEdits? edits lines = some (replaceRanges edits lines) := by
  cases edits with
  | nil =>
    rw [replaceRanges, replaceFrom_of_uncovered (by simp)]
    rfl
  | cons edit more =>
    obtain ⟨hlater, hpairwise⟩ := List.pairwise_cons.mp hpairwise
    obtain ⟨above, inside, last, below, h⟩ := exists_around (hrange edit List.mem_cons_self)
    have habove : ∀ line ∈ above, line.ending ≠ .missing := fun line hline =>
      hended line (h.above_subset_dropLast line hline)
    have hmore : ∀ later ∈ more, later.InRange above.length := fun later hmem =>
      h.inRange_above (hlater later hmem) (hrange later (List.mem_cons_of_mem _ hmem))
    -- only here may the last line be replaced, and here the lines are still those of the file
    have hsplice := h.splice?_append []
    simp only [List.append_nil] at hsplice
    rw [applyEdits?, List.foldlM_cons, hsplice]
    show applyEdits? more (above ++ _) = _
    rw [applyEdits?_append (commonEnding above) _ hpairwise hmore habove, replaceRanges,
      h.replaceFrom_cons hlater habove (commonEnding above)]

end Line

/-- The edits of a file go up the file without overlap, and replace lines that it has. -/
theorem Catalog.fixContent_inRange (catalog : Catalog) (file : Path) (content : List Char)
    (batch : List Diagnostic) :
    let result := catalog.fixContent file content batch
    (result.edits.Pairwise fun edit later => later.lastLine < edit.firstLine) ∧
      ∀ edit ∈ result.edits, edit.InRange (Line.ofText content).length := by
  intro result
  refine ⟨catalog.planEdits_pairwise _ batch, fun edit hedit => ?_⟩
  have h := wellFormed_of_mem_planEdits hedit
  exact ⟨h.one_le_firstLine, h.firstLine_le_lastLine, by simpa using h.lastLine_le_length⟩

/-- A plan goes from the bottom of the file up as it stands. -/
theorem Catalog.bottomUp_planEdits (catalog : Catalog) (lines : List (List Char))
    (batch : List Diagnostic) :
    PlannedEdit.bottomUp (catalog.planEdits lines batch) = catalog.planEdits lines batch := by
  refine List.mergeSort_of_pairwise ((catalog.planEdits_pairwise lines batch).imp_of_mem ?_)
  intro edit later _ hlater hbelow
  have hlater := (wellFormed_of_mem_planEdits hlater).firstLine_le_lastLine
  exact decide_eq_true (Nat.le_trans hlater (Nat.le_of_lt hbelow))

/-- The edits of a file are spliced into its lines in the order in which they are planned. -/
theorem Catalog.fixContent_eq (catalog : Catalog) (file : Path) (content : List Char)
    (batch : List Diagnostic) :
    let lines := Line.ofText content
    let edits := catalog.planEdits (lines.map (·.text)) batch
    catalog.fixContent file content batch
      = ⟨file, Line.render (Line.applyEdits edits lines), edits, false⟩ := by
  intro lines edits
  rw [fixContent, catalog.bottomUp_planEdits]

/-- Splicing the edits of a file into its lines, with every range checked, replaces all ranges at
once. -/
theorem Catalog.applyEdits?_fixContent (catalog : Catalog) (file : Path) (content : List Char)
    (batch : List Diagnostic) :
    Line.applyEdits? (catalog.fixContent file content batch).edits (Line.ofText content)
      = some (Line.replaceRanges (catalog.fixContent file content batch).edits
          (Line.ofText content)) := by
  obtain ⟨hpairwise, hrange⟩ := catalog.fixContent_inRange file content batch
  exact Line.applyEdits?_eq_replaceRanges hpairwise hrange
    (Line.ending_ne_missing_of_mem_dropLast content)

/-- The final content is the original lines with all ranges replaced. -/
theorem Catalog.finalContent_fixContent (catalog : Catalog) (file : Path) (content : List Char)
    (batch : List Diagnostic) :
    (catalog.fixContent file content batch).finalContent
      = Line.render (Line.replaceRanges (catalog.fixContent file content batch).edits
          (Line.ofText content)) := by
  rw [← Line.applyEdits_of_applyEdits? (catalog.applyEdits?_fixContent file content batch),
    catalog.fixContent_eq]

/-- The final content of a file is its original lines with the ranges of all planned edits replaced
at once, and on the way no splice reaches for a line that is not there. -/
theorem Catalog.fixContent_eq_replaceRanges (catalog : Catalog) (file : Path) (content : List Char)
    (batch : List Diagnostic) :
    let lines := Line.ofText content
    let result := catalog.fixContent file content batch
    Line.applyEdits? result.edits lines = some (Line.replaceRanges result.edits lines) ∧
      result.finalContent = Line.render (Line.replaceRanges result.edits lines) :=
  ⟨catalog.applyEdits?_fixContent file content batch,
    catalog.finalContent_fixContent file content batch⟩

end SourceRepair
