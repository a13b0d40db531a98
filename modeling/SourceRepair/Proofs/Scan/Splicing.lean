import SourceRepair.Proofs.Rule.Rewriting
import SourceRepair.Proofs.Text.Cutting
import SourceRepair.Scan.Finding

/-!
# What a pass of fixes does to a text

Applying the fixes of a scan keeps some stretches of the text and replaces others. `Spliced` is this
relation between the two texts, with the number of stretches replaced, and without offsets:
`applyFixes_scan_spliced` says that every stretch replaced is a match of one of the rules in code,
and its replacement the rule's fix. A property of single fixes that survives being put between two
texts is carried to whole passes by induction on `Spliced`.

The edits may overlap, and `applyFrom` then drops some. This costs the proof nothing: an edit that
starts at or behind the place reached lies wholly in what is left, whatever came before it.
-/

namespace SourceRepair

/-! ## Replacing stretches of a text -/

/-- The second text is the first one with `count` stretches replaced, each in a way that `fix`
allows. -/
inductive Spliced (fix : List Char → List Char → Prop) : List Char → List Char → Nat → Prop
  | done (text : List Char) : Spliced fix text text 0
  | replace (kept : List Char) {old new rest out : List Char} {count : Nat} (hfix : fix old new)
      (hmore : Spliced fix rest out count) :
      Spliced fix (kept ++ (old ++ rest)) (kept ++ (new ++ out)) (count + 1)

namespace TextEdit

/-- The edit replaces `old`, which stands at the edit's offsets in `text`. -/
def Replaces (edit : TextEdit) (text old : List Char) : Prop :=
  ∃ before after, text = before ++ (old ++ after) ∧ edit.start = Text.utf8Size before ∧
    edit.stop = edit.start + Text.utf8Size old

/-- An edit that starts before the place reached is dropped. -/
theorem applyFrom_cons_of_lt {pos : Nat} {rest : List Char} {edit : TextEdit}
    (more : List TextEdit) (h : edit.start < pos) :
    applyFrom pos rest (edit :: more) = applyFrom pos rest more := by
  rw [applyFrom, if_pos h]

/-- An edit whose range lies in what is left of the text replaces what stands there. -/
theorem applyFrom_cons_of_places {before kept old after : List Char} {edit : TextEdit}
    (more : List TextEdit) (hstart : edit.start = Text.utf8Size (before ++ kept))
    (hstop : edit.stop = Text.utf8Size (before ++ (kept ++ old))) :
    applyFrom (Text.utf8Size before) (kept ++ (old ++ after)) (edit :: more)
      = (kept ++ (edit.replacement ++ (applyFrom edit.stop after more).1),
          (applyFrom edit.stop after more).2 + 1) := by
  simp only [Text.utf8Size_append] at hstart hstop
  have hbehind : ¬edit.start < Text.utf8Size before := by omega
  have hkept : edit.start - Text.utf8Size before = Text.utf8Size kept := by omega
  have hold : edit.stop - edit.start = Text.utf8Size old := by omega
  rw [applyFrom, if_neg hbehind]
  simp only [hkept, hold, Text.splitAtByte_utf8Size, List.append_assoc]

/-- Edits that stand in a text are applied as replacements in what is left of it. -/
theorem applyFrom_spliced {fix : List Char → List Char → Prop} {edits : List TextEdit}
    (before rest : List Char)
    (hedits : ∀ edit ∈ edits, ∃ old, edit.Replaces (before ++ rest) old ∧
      fix old edit.replacement) :
    Spliced fix rest (applyFrom (Text.utf8Size before) rest edits).1
      (applyFrom (Text.utf8Size before) rest edits).2 := by
  induction edits generalizing before rest with
  | nil => exact Spliced.done rest
  | cons edit more ih =>
    have hmore := fun e he => hedits e (List.mem_cons_of_mem edit he)
    by_cases hdropped : edit.start < Text.utf8Size before
    · rw [applyFrom_cons_of_lt more hdropped]
      exact ih before rest hmore
    · obtain ⟨old, ⟨before', after, htext, hbefore', hstop⟩, hfix⟩ :=
        hedits edit List.mem_cons_self
      obtain ⟨kept, rfl, rfl⟩ := Text.exists_of_append_eq_append htext (by omega)
      have hplace : edit.stop = Text.utf8Size (before ++ (kept ++ old)) := by
        rw [hstop, hbefore', ← List.append_assoc, ← Text.utf8Size_append]
      have hrest := ih (before ++ (kept ++ old)) after fun e he => by
        simpa only [List.append_assoc] using hmore e he
      rw [applyFrom_cons_of_places more hbefore' hplace]
      rw [← hplace] at hrest
      exact Spliced.replace kept hfix hrest

/-- The first of some edits is applied if the place reached is not behind its start. -/
theorem applyFrom_cons_count_pos {pos : Nat} {rest : List Char} {edit : TextEdit}
    (more : List TextEdit) (h : pos ≤ edit.start) :
    0 < (applyFrom pos rest (edit :: more)).2 := by
  rw [applyFrom, if_neg (Nat.not_lt.mpr h)]
  exact Nat.succ_pos _

end TextEdit

/-! ## The fixes of a scan -/

variable {rules : List Rule} {text : List Char}

/-- A scan finds the matches in code of the rules. -/
theorem mem_scan {finding : Finding} :
    finding ∈ scan rules text ↔
      ∃ rule ∈ rules, ∃ m ∈ rule.codeMatches text, Finding.ofMatch rule m = finding := by
  rw [scan, List.mem_mergeSort, List.mem_flatMap]
  simp only [List.mem_map]

/-- The finding for a match has the fix that the rule suggests. -/
theorem Finding.ofMatch_fix_eq_some {rule : Rule} {m : Match} {edit : TextEdit}
    (h : (ofMatch rule m).fix = some edit) :
    rule.suggest? m = some edit.replacement ∧ edit.start = m.start ∧ edit.stop = m.stop := by
  obtain ⟨replacement, hsuggest, rfl⟩ := Option.map_eq_some_iff.mp h
  exact ⟨hsuggest, rfl, rfl⟩

/-- A fix that a scan of `text` may carry: a match in code of one of the rules becomes what the
rule suggests for it. -/
def FixIn (rules : List Rule) (text old new : List Char) : Prop :=
  ∃ rule ∈ rules, ∃ m ∈ rule.codeMatches text, m.text = old ∧ rule.suggest? m = some new

/-- A fix found by a scan replaces its match. -/
theorem exists_replaces_of_mem_scan {finding : Finding} {edit : TextEdit}
    (h : finding ∈ scan rules text) (hedit : finding.fix = some edit) :
    ∃ old, edit.Replaces text old ∧ FixIn rules text old edit.replacement := by
  obtain ⟨rule, hrule, m, hm, rfl⟩ := mem_scan.mp h
  obtain ⟨hsuggest, hstart, hstop⟩ := Finding.ofMatch_fix_eq_some hedit
  obtain ⟨-, hwhole, -⟩ := Rule.of_mem_codeMatches hm
  refine ⟨m.text, ⟨m.before.reverse, m.after, hwhole, ?_, ?_⟩, rule, hrule, m, hm, rfl, hsuggest⟩
  · rw [hstart, Text.utf8Size_reverse]
    rfl
  · rw [hstart, hstop]
    rfl

/-- Applying the fixes of a scan replaces matches in code by their fixes. -/
theorem applyFixes_scan_spliced (rules : List Rule) (text : List Char) :
    Spliced (FixIn rules text) text (applyFixes text (scan rules text)).1
      (applyFixes text (scan rules text)).2 := by
  refine TextEdit.applyFrom_spliced [] text fun edit hedit => ?_
  rw [List.mem_mergeSort, List.mem_filterMap] at hedit
  obtain ⟨finding, hmem, hfix⟩ := hedit
  exact exists_replaces_of_mem_scan hmem hfix

/-- A fix is applied whenever a finding carries one. -/
theorem applyFixes_count_pos {findings : List Finding} (h : ∃ f ∈ findings, f.fix ≠ none) :
    0 < (applyFixes text findings).2 := by
  obtain ⟨f, hf, hfix⟩ := h
  obtain ⟨edit, hedit⟩ := Option.ne_none_iff_exists'.mp hfix
  have hmem : edit ∈ (findings.filterMap (·.fix)).mergeSort TextEdit.rangeLE :=
    List.mem_mergeSort.mpr (List.mem_filterMap.mpr ⟨f, hf, hedit⟩)
  rw [applyFixes]
  cases hsorted : (findings.filterMap (·.fix)).mergeSort TextEdit.rangeLE with
  | nil =>
    rw [hsorted] at hmem
    exact absurd hmem List.not_mem_nil
  | cons first more => exact TextEdit.applyFrom_cons_count_pos more (Nat.zero_le _)

/-- Findings without fixes leave the text alone. -/
theorem applyFixes_of_forall_none {findings : List Finding} (h : ∀ f ∈ findings, f.fix = none) :
    applyFixes text findings = (text, 0) := by
  have hnil : findings.filterMap (·.fix) = [] := List.filterMap_eq_nil_iff.mpr h
  rw [applyFixes, hnil, List.mergeSort_nil]
  rfl

end SourceRepair
