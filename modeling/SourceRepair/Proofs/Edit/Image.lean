import SourceRepair.Proofs.Edit.Splicing

/-!
# What repairing a file keeps

`fixContent_image` carries a law of single rewrites to whole files. A reading of texts that goes
piece by piece and passes over line ends may be thought of as the part of a text that matters. If no
rewrite by a rule for one of the batch's codes changes it, then repairing the file does not change
it either: not by folding several repairs into one line, not by joining two lines, and not by the
splice.
-/

namespace SourceRepair

/-- A reading of texts that goes piece by piece and finds nothing in line ends. -/
structure PassesLineEnds {α : Type} (read : List Char → List α) : Prop where
  append : ∀ s t, read (s ++ t) = read s ++ read t
  lineFeed : read ['\n'] = []
  carriageReturn : read ['\r'] = []

/-- The texts of the lines that an edit replaces. -/
def PlannedEdit.replaced (lines : List (List Char)) (edit : PlannedEdit) : List (List Char) :=
  (lines.take edit.lastLine).drop (edit.firstLine - 1)

variable {α : Type} {read : List Char → List α}

namespace PassesLineEnds

theorem nil (hread : PassesLineEnds read) : read [] = [] := by
  have h := hread.append [] []
  rw [List.append_nil] at h
  exact List.self_eq_append_right.mp h

theorem cons (hread : PassesLineEnds read) (c : Char) (text : List Char) :
    read (c :: text) = read [c] ++ read text :=
  hread.append [c] text

theorem ending (hread : PassesLineEnds read) (ending : Ending) : read ending.toList = [] := by
  cases ending with
  | missing => exact hread.nil
  | lineFeed => exact hread.lineFeed
  | carriageReturnLineFeed =>
    rw [Ending.toList, hread.cons, hread.carriageReturn, hread.lineFeed, List.append_nil]

/-- Cutting a text into lines does not change how it reads. -/
theorem flatMap_pieces (hread : PassesLineEnds read) (text : List Char) :
    (Text.pieces '\n' text).flatMap read = read text := by
  induction text with
  | nil => rw [Text.pieces, List.flatMap_singleton]
  | cons c rest ih =>
    rw [Text.pieces, hread.cons, ← ih]
    split
    · rename_i hc
      rw [hc, List.flatMap_cons, hread.nil, hread.lineFeed]
    · split
      · rename_i hp
        exact absurd hp (Text.pieces_ne_nil _ _)
      · rename_i piece more hp
        rw [hp, List.flatMap_cons, List.flatMap_cons, hread.cons, List.append_assoc]

/-- Lines read text by text. -/
theorem render (hread : PassesLineEnds read) (lines : List Line) :
    read (Line.render lines) = (lines.map (·.text)).flatMap read := by
  induction lines with
  | nil => exact hread.nil
  | cons line more ih =>
    rw [Line.render_cons, hread.append, hread.append, hread.ending, ih, List.append_nil,
      List.map_cons, List.flatMap_cons]

end PassesLineEnds

/-! ## Planned edits -/

namespace Catalog

variable {catalog : Catalog} {lines : List (List Char)}

/-- An edit of one line replaces that line. -/
theorem replaced_eq_current {edit : PlannedEdit} {number : Nat} {current : List Char}
    (hfirst : edit.firstLine = number) (hlast : edit.lastLine = number) (hnumber : number ≠ 0)
    (hcurrent : lines[number - 1]? = some current) : edit.replaced lines = [current] := by
  obtain ⟨hlt, hget⟩ := List.getElem?_eq_some_iff.mp hcurrent
  have hone : number - (number - 1) = 1 := by omega
  rw [PlannedEdit.replaced, hfirst, hlast, List.drop_take, hone, List.drop_eq_getElem_cons hlt,
    hget]
  rfl

/-- An edit that takes in the line above replaces that line and the current one. -/
theorem replaced_eq_joined {edit : PlannedEdit} {number : Nat} {above current : List Char}
    (hfirst : edit.firstLine = number - 1) (hlast : edit.lastLine = number)
    (habove : lineAbove? lines number = some above) (hcurrent : lines[number - 1]? = some current) :
    edit.replaced lines = [above, current] := by
  have htwo : 2 ≤ number := two_le_of_lineAbove? (by rw [habove]; rfl)
  rw [lineAbove?, if_neg (by omega)] at habove
  obtain ⟨hlt, hget⟩ := List.getElem?_eq_some_iff.mp hcurrent
  obtain ⟨hlt', hget'⟩ := List.getElem?_eq_some_iff.mp habove
  have hstart : number - 1 - 1 = number - 2 := by omega
  have hcount : number - (number - 2) = 2 := by omega
  have hnext : number - 2 + 1 = number - 1 := by omega
  rw [PlannedEdit.replaced, hfirst, hlast, hstart, List.drop_take, hcount,
    List.drop_eq_getElem_cons hlt', hget']
  simp only [hnext, List.drop_eq_getElem_cons hlt, hget]
  rfl

variable {group : List Diagnostic}

/-- A folded line reads like the line itself, or like the line above and the line itself. -/
theorem foldLine_image (hread : PassesLineEnds read) (previous next : Option (List Char))
    (hrules : ∀ d ∈ group, ∀ rule ∈ catalog.rulesFor d.code, ∀ text result,
      rule.rewrite text = .changed result → read result = read text) (current : List Char) :
    let folded := catalog.foldLine previous next group current
    (folded.linesBefore = 0 → read folded.text = read current) ∧
      (folded.linesBefore ≠ 0 → ∃ above, previous = some above ∧
        read folded.text = read above ++ read current) := by
  refine foldLine_invariant (fun text => read text = read current)
    (fun text => ∃ above, previous = some above ∧ read text = read above ++ read current)
    rfl ?_ ?_
  · intro d hd text repair htext hrepair hlines
    obtain ⟨rule, hrule, ⟨-, -, hrewrite⟩ | ⟨-, hone, -⟩⟩ := repair?_eq_some hrepair
    · rw [hrules d hd rule hrule text _ hrewrite, htext]
    · omega
  · intro d hd text repair htext hrepair hlines
    obtain ⟨rule, hrule, ⟨-, hzero, -⟩ | ⟨-, -, above, habove, hrewrite⟩⟩ := repair?_eq_some hrepair
    · exact absurd hzero hlines
    · refine ⟨above, habove, ?_⟩
      rw [hrules d hd rule hrule _ _ hrewrite, hread.append, hread.cons, hread.lineFeed, htext,
        List.nil_append]

/-- An edit reads like the lines it replaces, if every rewrite reads like what it rewrites. -/
theorem planLine?_image (hread : PassesLineEnds read) {claimed : Option Nat} {edit : PlannedEdit}
    (hrules : ∀ d ∈ group, ∀ rule ∈ catalog.rulesFor d.code, ∀ text result,
      rule.rewrite text = .changed result → read result = read text)
    (h : catalog.planLine? lines claimed group = some edit) :
    edit.replacement.flatMap read = (edit.replaced lines).flatMap read := by
  obtain ⟨d, current, -, hzero, -, hcurrent, -, rfl⟩ := planLine?_eq_some h
  obtain ⟨halone, hjoined⟩ :=
    foldLine_image hread (lineAbove? lines d.line) lines[d.line]? hrules current
  rw [hread.flatMap_pieces]
  rcases foldLine_linesBefore catalog (lineAbove? lines d.line) lines[d.line]? group current with
    hlines | ⟨hlines, -⟩
  · rw [halone hlines, replaced_eq_current (by rw [hlines]; rfl) rfl hzero hcurrent,
      List.flatMap_singleton]
  · obtain ⟨above, habove, htext⟩ := hjoined (by omega)
    rw [htext, replaced_eq_joined (by rw [hlines]) rfl habove hcurrent]
    simp

end Catalog

/-! ## The splice -/

namespace Line

variable {edits : List PlannedEdit} {common : Ending}

/-- New lines have the texts given, whatever their terminators. -/
theorem map_text_terminated (inner final : Ending) (texts : List (List Char)) :
    (terminated inner final texts).map (·.text) = texts := by
  rw [← dress_eq_terminated]
  fun_induction dress inner final texts with
  | case1 => rfl
  | case2 text => rfl
  | case3 text more _ ih => rw [List.map_cons, ih]

/-- The lines that an edit replaces stand between those above and those below. -/
theorem Around.replaced_eq {edit : PlannedEdit} {lines above inside below : List Line}
    {last : Line} (h : Around edit lines above inside last below) :
    edit.replaced (lines.map (·.text)) = (inside ++ [last]).map (·.text) := by
  have hsplit : lines = (above ++ (inside ++ [last])) ++ below := by
    rw [h.lines_eq]
    simp
  have hcount : edit.lastLine = (above ++ (inside ++ [last])).length := by
    simp only [List.length_append, List.length_singleton, h.lastLine_eq]
    omega
  rw [PlannedEdit.replaced, ← List.map_take, ← List.map_drop]
  rw [hsplit, hcount, List.take_left, h.firstLine_eq, Nat.add_sub_cancel, List.drop_left]

/-- If every edit reads like the lines it replaces, the lines with all ranges replaced read as
before. -/
theorem replaceFrom_image {lines : List Line}
    (hpairwise : edits.Pairwise fun edit later => later.lastLine < edit.firstLine)
    (hrange : ∀ edit ∈ edits, edit.InRange lines.length)
    (hended : ∀ line ∈ lines.dropLast, line.ending ≠ .missing)
    (hedit : ∀ edit ∈ edits, edit.replacement.flatMap read
      = (edit.replaced (lines.map (·.text))).flatMap read) :
    ((replaceFrom edits common 1 lines).map (·.text)).flatMap read
      = (lines.map (·.text)).flatMap read := by
  induction edits generalizing lines with
  | nil => rw [replaceFrom_of_uncovered (by simp)]
  | cons edit more ih =>
    obtain ⟨hlater, hpairwise⟩ := List.pairwise_cons.mp hpairwise
    obtain ⟨above, inside, last, below, h⟩ := exists_around (hrange edit List.mem_cons_self)
    have habove : ∀ line ∈ above, line.ending ≠ .missing := fun line hline =>
      hended line (h.above_subset_dropLast line hline)
    have hmore : ∀ later ∈ more, later.InRange above.length := fun later hmem =>
      h.inRange_above (hlater later hmem) (hrange later (List.mem_cons_of_mem _ hmem))
    have hrest := ih hpairwise hmore
      (fun line hline => habove line (List.dropLast_subset _ hline)) (by
        -- the edits left lie above, so they replace the same lines in the file's beginning
        intro later hmem
        have hle : later.lastLine ≤ (above.map (·.text)).length := by
          rw [List.length_map]
          exact (hmore later hmem).2.2
        rw [hedit later (List.mem_cons_of_mem _ hmem), h.lines_eq, PlannedEdit.replaced,
          PlannedEdit.replaced, List.map_append, List.take_append_of_le_length hle])
    rw [h.replaceFrom_cons hlater habove common, List.map_append, List.map_append,
      List.flatMap_append, List.flatMap_append, hrest, map_text_terminated,
      hedit edit List.mem_cons_self, h.replaced_eq]
    conv_rhs => rw [h.lines_eq]
    simp only [List.map_append, List.map_cons, List.map_nil, List.flatMap_append,
      List.flatMap_cons, List.flatMap_nil, List.append_nil, List.append_assoc]

end Line

/-- Repairing a file does not change how it reads, if no rewrite does by a rule for one of the
batch's codes. -/
theorem Catalog.fixContent_image {catalog : Catalog} (hread : PassesLineEnds read) (file : Path)
    (content : List Char) {batch : List Diagnostic}
    (hrules : ∀ d ∈ batch, ∀ rule ∈ catalog.rulesFor d.code, ∀ text result,
      rule.rewrite text = .changed result → read result = read text) :
    read (catalog.fixContent file content batch).finalContent = read content := by
  obtain ⟨hpairwise, hrange⟩ := catalog.fixContent_inRange file content batch
  rw [finalContent_fixContent, hread.render, Line.replaceRanges,
    Line.replaceFrom_image hpairwise hrange (Line.ending_ne_missing_of_mem_dropLast content),
    ← hread.render, Line.render_ofText]
  intro edit hedit
  obtain ⟨group, -, hgroup, claimed, hplan⟩ := mem_planEdits hedit
  exact planLine?_image hread (fun d hd => hrules d (hgroup d hd)) hplan

end SourceRepair
