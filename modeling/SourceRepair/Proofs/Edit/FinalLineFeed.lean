import SourceRepair.Proofs.Edit.Splicing
import SourceRepair.Proofs.Scan.Computed
import SourceRepair.Proofs.Text.Trimming
import SourceRepair.Proofs.TypeScript.StaticRules

/-!
# How many lines a repaired file has, and how it ends

The last new line of an edit takes the terminator of the last line replaced. So the terminator of
the file's last line stays, and the edits alone decide how many lines are written
(`Line.applyEdits_separated`). Written lines come apart again where they were put together
(`Line.length_ofText_render`), with one exception: a last line without text and without terminator
leaves nothing behind, and the text then ends in the line feed above it.

`Catalog.fixContent_lines` says what this means for a file. An edit for an unterminated last line
whose last new line is empty (`PlannedEdit.emptiesEnd`) takes one line away, and the file ends in a
line feed that it did not end in before. Without such an edit the lines add up and the end of the
file stays as it was. Such edits exist: `Catalog.fixContent_not_lines` has a closing brace that is
removed from the last line.
-/

namespace SourceRepair

namespace PlannedEdit

/-- How many lines the edit replaces. -/
def lineCount (edit : PlannedEdit) : Nat :=
  edit.lastLine - edit.firstLine + 1

/-- Whether the edit leaves an empty line without a terminator at the end of a file. -/
def emptiesEnd (lines : List Line) (edit : PlannedEdit) : Bool :=
  edit.lastLine == lines.length && edit.replacement.getLast? == some []
    && lines.getLast?.map (·.ending) == some .missing

/-- An edit of lines that a file has, by at least one new line, none of which runs over a line
end. -/
structure Fits (count : Nat) (edit : PlannedEdit) : Prop where
  inRange : edit.InRange count
  replacement_ne_nil : edit.replacement ≠ []
  replacement_singleLine : ∀ text ∈ edit.replacement, '\n' ∉ text

theorem emptiesEnd_eq_true {lines : List Line} {edit : PlannedEdit} :
    edit.emptiesEnd lines = true ↔ (edit.lastLine = lines.length ∧
      edit.replacement.getLast? = some []) ∧ lines.getLast?.map (·.ending) = some .missing := by
  simp only [emptiesEnd, Bool.and_eq_true, beq_iff_eq]

/-- An edit above the last line does not touch the end of the file. -/
theorem emptiesEnd_of_lt {lines : List Line} {edit : PlannedEdit}
    (h : edit.lastLine < lines.length) : edit.emptiesEnd lines = false := by
  rw [Bool.eq_false_iff, ne_eq, emptiesEnd_eq_true]
  omega

end PlannedEdit

namespace Line

/-! ## Writing lines and reading them again -/

/-- Lines that come apart again when they are written: none holds a line feed, and only the last one
can lack its terminator. They differ from lines as read in that the last one may be nothing at
all. -/
structure Separated (lines : List Line) : Prop where
  lineFeed_not_mem : ∀ line ∈ lines, '\n' ∉ line.text
  ending_ne : ∀ line ∈ lines.dropLast, line.ending ≠ .missing

/-- Whether the last line has neither a text nor a terminator. -/
def endsEmpty (lines : List Line) : Bool :=
  lines.getLast? == some ⟨[], .missing⟩

theorem AsRead.separated {lines : List Line} (h : AsRead lines) : Separated lines :=
  ⟨h.lineFeed_not_mem, h.ending_ne⟩

/-- A line that is read is not nothing. -/
theorem AsRead.endsEmpty_eq_false {lines : List Line} (h : AsRead lines) :
    endsEmpty lines = false := by
  rw [endsEmpty, beq_eq_false_iff_ne]
  intro hlast
  exact h.toList_ne _ (List.mem_of_getLast? hlast) rfl

theorem separated_append_cons {front back : List Line} {line : Line} :
    Separated (front ++ line :: back) ↔
      (∀ l ∈ front, '\n' ∉ l.text ∧ l.ending ≠ .missing) ∧ Separated (line :: back) := by
  constructor
  · rintro ⟨hfeed, hended⟩
    rw [List.dropLast_append_cons] at hended
    exact ⟨fun l hl => ⟨hfeed l (List.mem_append_left _ hl), hended l (List.mem_append_left _ hl)⟩,
      fun l hl => hfeed l (List.mem_append_right _ hl),
      fun l hl => hended l (List.mem_append_right _ hl)⟩
  · rintro ⟨hfront, hfeed, hended⟩
    refine ⟨fun l hl => ?_, fun l hl => ?_⟩
    · exact (List.mem_append.mp hl).elim (fun h => (hfront l h).1) (hfeed l)
    · rw [List.dropLast_append_cons] at hl
      exact (List.mem_append.mp hl).elim (fun h => (hfront l h).2) (hended l)

/-- The first line may get another text. -/
theorem Separated.withText {line : Line} {back : List Line} (h : Separated (line :: back))
    {text : List Char} (htext : '\n' ∉ text) : Separated (⟨text, line.ending⟩ :: back) := by
  refine ⟨List.forall_mem_cons.mpr ⟨htext, fun l hl =>
    h.lineFeed_not_mem l (List.mem_cons_of_mem _ hl)⟩, ?_⟩
  have hended := h.ending_ne
  cases back with
  | nil => simp
  | cons next more =>
    rw [List.dropLast_cons_cons, List.forall_mem_cons] at hended ⊢
    exact hended

/-- Lines that are written and read again are as many as before, but for a last one that is
nothing. -/
theorem length_ofText_render {lines : List Line} (h : Separated lines) :
    (ofText (render lines)).length + (endsEmpty lines).toNat = lines.length := by
  induction lines with
  | nil => rfl
  | cons line more ih =>
    obtain ⟨hfeed, hmore⟩ := List.forall_mem_cons.mp h.lineFeed_not_mem
    by_cases hending : line.ending = .missing
    · -- this is the last line
      obtain rfl : more = [] := by
        cases more with
        | nil => rfl
        | cons next more => exact absurd hending (h.ending_ne line List.mem_cons_self)
      have hrender : render [line] = line.text := by
        rw [render_cons, hending, render_nil, Ending.toList, List.append_nil, List.append_nil]
      rw [hrender]
      obtain ⟨text, ending⟩ := line
      obtain rfl : ending = .missing := hending
      by_cases hempty : text = []
      · rw [hempty]
        rfl
      · rw [ofText_of_not_mem hfeed hempty]
        simp [endsEmpty, hempty]
    · have hseparated : Separated more := by
        refine ⟨hmore, fun l hl => h.ending_ne l ?_⟩
        cases more with
        | nil => exact absurd hl List.not_mem_nil
        | cons next more => exact List.mem_cons_of_mem line hl
      have hends : endsEmpty (line :: more) = endsEmpty more := by
        cases more with
        | nil =>
          rw [endsEmpty, endsEmpty, List.getLast?_singleton, List.getLast?_nil]
          simpa using fun heq : line = ⟨[], .missing⟩ => hending (congrArg Line.ending heq)
        | cons next more => rw [endsEmpty, endsEmpty, List.getLast?_cons_cons]
      obtain ⟨front, hfront, hfree⟩ := exists_toList_eq_append hending hfeed
      obtain ⟨first, hfirst, -⟩ := exists_ofText_append_lineFeed hfree (render more)
      have hrender : render (line :: more) = front ++ '\n' :: render more := by
        rw [render_cons, ← toList, hfront, List.append_assoc]
        rfl
      rw [hrender, hfirst, hends, List.length_cons, List.length_cons, ← ih hseparated]
      omega

/-- Written lines end in a line feed if the last one has a terminator, or if it is nothing and there
are others. -/
theorem getLast?_render {lines : List Line} (h : Separated lines) :
    (render lines).getLast? = some '\n' ↔
      (∃ ending ∈ lines.getLast?.map (·.ending), ending ≠ .missing) ∨
        endsEmpty lines = true ∧ render lines ≠ [] := by
  rcases List.eq_nil_or_concat lines with rfl | ⟨above, last, rfl⟩
  · simp
  rw [List.concat_eq_append] at h ⊢
  have hrender : render (above ++ [last]) = render above ++ last.toList := by
    rw [render_append, render_cons, render_nil, List.append_nil, ← toList]
  rw [hrender, List.getLast?_concat, endsEmpty, List.getLast?_concat]
  by_cases hending : last.ending = .missing
  · obtain ⟨text, ending⟩ := last
    obtain rfl : ending = .missing := hending
    have htoList : toList ⟨text, .missing⟩ = text := List.append_nil text
    rw [htoList]
    by_cases hempty : text = []
    · subst hempty
      have habove := render_endsInLineFeed fun l hl =>
        ((separated_append_cons.mp h).1 l hl).2
      rcases habove with habove | ⟨front, habove⟩ <;> simp [habove]
    · have hfeed : '\n' ∉ text := h.lineFeed_not_mem ⟨text, .missing⟩ (by simp)
      have hlast : text.getLast? ≠ some '\n' := fun hlast => hfeed (List.mem_of_getLast? hlast)
      rw [List.getLast?_append_of_ne_nil _ hempty]
      simp [hlast, hempty]
  · obtain ⟨front, hfront⟩ := exists_toList_eq hending
    rw [hfront, ← List.append_assoc, List.getLast?_concat]
    simp [hending]

/-! ## One splice -/

/-- All new lines but the last end in `inner`. -/
theorem terminated_append_singleton (inner final : Ending) (front : List (List Char))
    (text : List Char) :
    terminated inner final (front ++ [text]) = front.map (⟨·, inner⟩) ++ [⟨text, final⟩] := by
  have hlength : (front ++ [text]).length - 1 = front.length := by simp
  rw [terminated, hlength, List.zipWith_append (by simp)]
  congr 1
  induction front with
  | nil => rfl
  | cons first more ih =>
    rw [List.length_cons, List.replicate_succ, List.zipWith_cons_cons, ih (by simp)]
    rfl

/-- The common terminator is there. -/
theorem commonEnding_ne_missing (lines : List Line) : commonEnding lines ≠ .missing := by
  rw [commonEnding]
  cases h : (lines.map (·.ending)).find? (· != .missing) with
  | none => simp
  | some ending => simpa using List.find?_some h

variable {edit : PlannedEdit} {lines : List Line}

/-- A splice puts new lines in place of those replaced: all but the last have terminators, and the
last one has that of the last line replaced. -/
theorem exists_splice_eq (h : edit.Fits lines.length) :
    ∃ above inside last below front text inner, Around edit lines above inside last below ∧
      edit.replacement = front ++ [text] ∧ inner ≠ .missing ∧
      splice lines edit = above ++ (front.map (⟨·, inner⟩) ++ ⟨text, last.ending⟩ :: below) := by
  obtain ⟨above, inside, last, below, haround⟩ := exists_around h.inRange
  obtain ⟨front, text, hreplacement⟩ :=
    (List.eq_nil_or_concat edit.replacement).resolve_left h.replacement_ne_nil
  rw [List.concat_eq_append] at hreplacement
  have hsplice := haround.splice?_append []
  rw [List.append_nil, splice?, if_pos h.inRange, Option.some.injEq, hreplacement,
    terminated_append_singleton, List.append_nil] at hsplice
  refine ⟨above, inside, last, below, front, text,
    if last.ending = .missing then commonEnding lines else last.ending, haround, hreplacement,
    ?_, ?_⟩
  · split
    · exact commonEnding_ne_missing lines
    · assumption
  · rw [hsplice, List.append_assoc]
    rfl

/-- A splice leaves separated lines, as many as there were with the replaced ones taken out and the
new ones put in. -/
theorem splice_separated (hedit : edit.Fits lines.length) (h : Separated lines) :
    Separated (splice lines edit) ∧
      (splice lines edit).length + edit.lineCount = lines.length + edit.replacement.length := by
  obtain ⟨above, inside, last, below, front, text, inner, ⟨hlines, hfirst, hlast⟩, hreplacement,
    hinner, hsplice⟩ := exists_splice_eq hedit
  have hnew := hedit.replacement_singleLine
  rw [hreplacement, List.forall_mem_append, List.forall_mem_singleton] at hnew
  rw [hlines, ← List.append_assoc, separated_append_cons, List.forall_mem_append] at h
  obtain ⟨⟨habove, -⟩, hbelow⟩ := h
  refine ⟨?_, ?_⟩
  · rw [hsplice, ← List.append_assoc, separated_append_cons, List.forall_mem_append,
      List.forall_mem_map]
    exact ⟨⟨habove, fun t ht => ⟨hnew.1 t ht, hinner⟩⟩, hbelow.withText hnew.2⟩
  · rw [hsplice, hlines, hreplacement, PlannedEdit.lineCount]
    simp only [List.length_append, List.length_cons, List.length_map, List.length_nil]
    omega

/-- A splice leaves the terminator at the end of the file. Above the last line it leaves that line
as it is; the last line gets the last new text. -/
theorem getLast?_splice (hedit : edit.Fits lines.length) :
    (splice lines edit).getLast?.map (·.ending) = lines.getLast?.map (·.ending) ∧
      (edit.lastLine < lines.length → (splice lines edit).getLast? = lines.getLast?) ∧
      (edit.lastLine = lines.length →
        (splice lines edit).getLast?.map (·.text) = edit.replacement.getLast?) := by
  obtain ⟨above, inside, last, below, front, text, inner, ⟨hlines, hfirst, hlast⟩, hreplacement,
    hinner, hsplice⟩ := exists_splice_eq hedit
  have hlength : lines.length = edit.lastLine + below.length := by
    rw [hlines, List.length_append, List.length_append, List.length_cons]
    omega
  have hold : lines.getLast? = (last :: below).getLast? := by
    rw [hlines, ← List.append_assoc, List.getLast?_append_cons]
  have hnew : (splice lines edit).getLast? = (⟨text, last.ending⟩ :: below).getLast? := by
    rw [hsplice, ← List.append_assoc, List.getLast?_append_cons]
  rw [hold, hnew, hreplacement, List.getLast?_concat]
  cases below with
  | nil =>
    rw [List.length_nil] at hlength
    exact ⟨rfl, fun hlt => absurd hlength (by omega), fun _ => rfl⟩
  | cons next more =>
    rw [List.length_cons] at hlength
    rw [List.getLast?_cons_cons, List.getLast?_cons_cons]
    exact ⟨rfl, fun _ => rfl, fun heq => absurd hlength (by omega)⟩

theorem endsEmpty_eq_true :
    endsEmpty lines = true ↔ lines.getLast?.map (·.text) = some [] ∧
      lines.getLast?.map (·.ending) = some .missing := by
  rw [endsEmpty, beq_iff_eq]
  cases lines.getLast? with
  | none => simp
  | some last =>
    obtain ⟨text, ending⟩ := last
    simp

/-- After a splice the last line is nothing if the edit made it so. -/
theorem endsEmpty_splice (hedit : edit.Fits lines.length) (h : endsEmpty lines = false) :
    endsEmpty (splice lines edit) = edit.emptiesEnd lines := by
  obtain ⟨hending, habove, hlast⟩ := getLast?_splice hedit
  rcases Nat.lt_or_eq_of_le hedit.inRange.2.2 with hlt | heq
  · rw [PlannedEdit.emptiesEnd_of_lt hlt, endsEmpty, habove hlt, ← endsEmpty, h]
  · rw [Bool.eq_iff_iff, endsEmpty_eq_true, PlannedEdit.emptiesEnd_eq_true, hending, hlast heq,
      and_iff_right heq]

/-! ## All splices -/

/-- An edit above another one fits the lines that the other one leaves, and lies above the last of
them. -/
theorem fits_splice {later : PlannedEdit} (hedit : edit.Fits lines.length) (h : Separated lines)
    (hlater : later.Fits lines.length) (habove : later.lastLine < edit.firstLine) :
    later.Fits (splice lines edit).length ∧ later.lastLine < (splice lines edit).length := by
  have hlength := (splice_separated hedit h).2
  have hnew : 0 < edit.replacement.length := List.length_pos_of_ne_nil hedit.replacement_ne_nil
  obtain ⟨hone, hle, hcount⟩ := hedit.inRange
  rw [PlannedEdit.lineCount] at hlength
  have hlt : later.lastLine < (splice lines edit).length := by omega
  exact ⟨{ hlater with inRange := ⟨hlater.inRange.1, hlater.inRange.2.1, Nat.le_of_lt hlt⟩ }, hlt⟩

variable {edits : List PlannedEdit}

/-- Edits that come from the bottom of the file up leave separated lines, as many as there were with
all replaced ones taken out and all new ones put in, and edits above the last line leave that line
as it is. -/
theorem applyEdits_separated
    (hpairwise : edits.Pairwise fun edit later => later.lastLine < edit.firstLine)
    (hfits : ∀ edit ∈ edits, edit.Fits lines.length) (h : Separated lines) :
    Separated (applyEdits edits lines) ∧
      (applyEdits edits lines).length + (edits.map (·.lineCount)).sum
        = lines.length + (edits.map (·.replacement.length)).sum ∧
      ((∀ edit ∈ edits, edit.lastLine < lines.length) →
        (applyEdits edits lines).getLast? = lines.getLast?) := by
  induction edits generalizing lines with
  | nil => exact ⟨h, rfl, fun _ => rfl⟩
  | cons edit more ih =>
    obtain ⟨hlater, hmore⟩ := List.pairwise_cons.mp hpairwise
    obtain ⟨hedit, hfits⟩ := List.forall_mem_cons.mp hfits
    obtain ⟨hspliced, hlength⟩ := splice_separated hedit h
    have hremain := fun later hmem => fits_splice hedit h (hfits later hmem) (hlater later hmem)
    obtain ⟨hseparated, hsum, hlast⟩ := ih hmore (fun later hmem => (hremain later hmem).1) hspliced
    rw [applyEdits, List.foldl_cons, ← applyEdits]
    refine ⟨hseparated, ?_, fun habove => ?_⟩
    · rw [List.map_cons, List.map_cons, List.sum_cons, List.sum_cons]
      omega
    · rw [hlast fun later hmem => (hremain later hmem).2]
      exact (getLast?_splice hedit).2.1 (habove edit List.mem_cons_self)

/-- The file's last terminator stays, and the last line is nothing in the end if an edit made it
so. Only the first edit can reach the last line. -/
theorem applyEdits_end
    (hpairwise : edits.Pairwise fun edit later => later.lastLine < edit.firstLine)
    (hfits : ∀ edit ∈ edits, edit.Fits lines.length) (h : Separated lines)
    (hends : endsEmpty lines = false) :
    (applyEdits edits lines).getLast?.map (·.ending) = lines.getLast?.map (·.ending) ∧
      endsEmpty (applyEdits edits lines) = edits.any (·.emptiesEnd lines) := by
  cases edits with
  | nil => exact ⟨rfl, hends⟩
  | cons edit more =>
    obtain ⟨hlater, hmore⟩ := List.pairwise_cons.mp hpairwise
    obtain ⟨hedit, hfits⟩ := List.forall_mem_cons.mp hfits
    have hremain := fun later hmem => fits_splice hedit h (hfits later hmem) (hlater later hmem)
    have hlast := (applyEdits_separated hmore (fun later hmem => (hremain later hmem).1)
      (splice_separated hedit h).1).2.2 fun later hmem => (hremain later hmem).2
    have hnone : more.any (·.emptiesEnd lines) = false := by
      rw [List.any_eq_false]
      intro later hmem
      have habove := hlater later hmem
      have hrange := hedit.inRange
      rw [PlannedEdit.emptiesEnd_of_lt (Nat.lt_of_lt_of_le habove
        (Nat.le_trans hrange.2.1 hrange.2.2))]
      exact Bool.false_ne_true
    rw [applyEdits, List.foldl_cons, ← applyEdits, endsEmpty, hlast, ← endsEmpty,
      endsEmpty_splice hedit hends, List.any_cons, hnone, Bool.or_false]
    exact ⟨(getLast?_splice hedit).1, rfl⟩

end Line

/-! ## Whole files -/

namespace Catalog

/-- A repaired file has as many lines as before, less those replaced, with the new lines, and it
ends in a line feed if it did before. If an edit leaves an empty line without a terminator at the
end, then that line is not there, and unless nothing else is left the file ends in a line feed. -/
theorem fixContent_lines (catalog : Catalog) (file : Path) (content : List Char)
    (batch : List Diagnostic) :
    let lines := Line.ofText content
    let result := catalog.fixContent file content batch
    let emptied := result.edits.any (·.emptiesEnd lines)
    (Line.ofText result.finalContent).length + (result.edits.map (·.lineCount)).sum
          + emptied.toNat
        = lines.length + (result.edits.map (·.replacement.length)).sum ∧
      (result.finalContent.getLast? = some '\n' ↔
        content.getLast? = some '\n' ∨ emptied = true ∧ result.finalContent ≠ []) := by
  intro lines result emptied
  have hread := Line.asRead_ofText content
  have hpairwise : result.edits.Pairwise fun edit later => later.lastLine < edit.firstLine :=
    (catalog.fixContent_inRange file content batch).1
  have hfits : ∀ edit ∈ result.edits, edit.Fits lines.length := fun edit hedit =>
    ⟨(catalog.fixContent_inRange file content batch).2 edit hedit,
      (wellFormed_of_mem_planEdits hedit).replacement_ne_nil,
      (wellFormed_of_mem_planEdits hedit).replacement_singleLine⟩
  obtain ⟨hseparated, hlength, -⟩ := Line.applyEdits_separated hpairwise hfits hread.separated
  obtain ⟨hending, hends⟩ := Line.applyEdits_end hpairwise hfits hread.separated
    hread.endsEmpty_eq_false
  have hfinal : result.finalContent = Line.render (Line.applyEdits result.edits lines) :=
    congrArg EditResult.finalContent (catalog.fixContent_eq file content batch)
  refine ⟨?_, ?_⟩
  · have hcount : (Line.ofText result.finalContent).length + emptied.toNat
        = (Line.applyEdits result.edits lines).length := by
      rw [hfinal, ← Line.length_ofText_render hseparated, hends]
    omega
  · have hcontent := Line.getLast?_render hread.separated
    rw [Line.render_ofText, hread.endsEmpty_eq_false] at hcontent
    have hresult := Line.getLast?_render hseparated
    -- the terminator of the last line is the same before and after
    rw [hending, hends] at hresult
    rw [hfinal, hresult, hcontent]
    simp only [Bool.false_eq_true, false_and, or_false]
    rfl

/-- A brace reported below a line that is a brace alone goes. -/
theorem repairAt?_braceBelowBrace (d : Diagnostic) (hcode : d.code = "TS1128")
    (hline : d.line = 2) :
    TypeScript.catalog.repairAt? [['}'], ['}']] d = some ⟨"orphaned-brace", 0, []⟩ := by
  have hreturn : TypeScript.orphanedBraceAfterReturn.evaluate ⟨some ['}'], ['}'], none, some d⟩
      = .unmatched :=
    show TypeScript.orphanedBraceAfterReturn.rewrite ['}', '\n', '}'] = .unmatched by cbv
  have hbrace : TypeScript.orphanedBrace.evaluate ⟨some ['}'], ['}'], none, some d⟩
      = .changed [] :=
    show (if _ then TypeScript.orphanedBrace.rewrite ['}'] else _) = .changed [] by cbv
  rw [repairAt?, hline]
  show TypeScript.catalog.repair? d (some ['}']) ['}'] none = _
  rw [TypeScript.repair?_closingBrace hcode, Repair.first?, hreturn, Repair.first?, hbrace]
  rfl

/-- The end of a file does not always stay. A closing brace too many on an unterminated last line
is removed, which leaves an empty line without a terminator, and the file then ends in the line feed
of the line above. -/
theorem fixContent_not_lines :
    ¬ ∀ (file : Path) (content : List Char) (batch : List Diagnostic), content ≠ [] →
      let lines := Line.ofText content
      let result := TypeScript.catalog.fixContent file content batch
      (result.finalContent.getLast? = some '\n' ↔ content.getLast? = some '\n') ∧
        (Line.ofText result.finalContent).length + (result.edits.map (·.lineCount)).sum
          = lines.length + (result.edits.map (·.replacement.length)).sum := by
  let brace : Diagnostic := ⟨⟨"a.ts"⟩, 2, 1, "TS1128", ""⟩
  have hedits : (TypeScript.catalog.fixContent ⟨"a.ts"⟩ ['}', '\n', '}'] [brace]).edits
      = [⟨2, 2, [[]], ["orphaned-brace"]⟩] :=
    planEdits_singleton (repairAt?_braceBelowBrace brace rfl rfl)
  have hfinal : (TypeScript.catalog.fixContent ⟨"a.ts"⟩ ['}', '\n', '}'] [brace]).finalContent
      = ['}', '\n'] := by
    rw [finalContent_fixContent, hedits]
    decide +kernel
  intro hall
  have hend := (hall ⟨"a.ts"⟩ ['}', '\n', '}'] [brace] (List.cons_ne_nil _ _)).1
  rw [hfinal] at hend
  exact absurd (hend.mp rfl) (by decide)

end Catalog
end SourceRepair
