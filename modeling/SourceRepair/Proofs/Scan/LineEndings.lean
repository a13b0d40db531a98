import SourceRepair.Proofs.Rule.Lines
import SourceRepair.Proofs.Scan.Rewriting
import SourceRepair.Proofs.Text.Returns

/-!
# Scans and the kind of line ends

Two scans are compared here, one of a text without carriage returns and one of the same text with a
carriage return in front of every line feed. Rules that see no more than single lines find the same
matches in both, up to the text around them (`codeMatches_withReturns`), so the findings have the
same lines and columns, and the edits replace the same pieces of the two texts
(`applyFrom_withReturns`).

The literal scanner is not indifferent to the carriage return everywhere: a backslash takes one
character with it, which is the line feed in one text and the carriage return in the other. So a
string that is continued over a line end in the first text ends there in the second, and the two
scans are compared only for texts without such strings.
-/

namespace SourceRepair

namespace Text

/-- Read backwards, a carriage return stands behind every line feed. -/
theorem reverse_withReturns_cons (c : Char) (before : List Char) :
    (withReturns (c :: before).reverse).reverse
      = (if c = '\n' then ['\n', '\r'] else [c]) ++ (withReturns before.reverse).reverse := by
  rw [List.reverse_cons, withReturns_append, List.reverse_append]
  by_cases hc : c = '\n'
  · subst hc
    rfl
  · rw [if_neg hc, withReturns_cons_of_ne hc]
    rfl

end Text

/-- The place behind a text is on the same line with carriage returns. -/
theorem lineAfter_withReturns (before : List Char) :
    lineAfter (Text.withReturns before.reverse).reverse = lineAfter before := by
  rw [lineAfter, lineAfter]
  congr 1
  induction before with
  | nil => rfl
  | cons c before ih =>
    rw [Text.reverse_withReturns_cons, List.count_append, ih]
    by_cases hc : c = '\n'
    · subst hc
      simp [Nat.add_comm]
    · simp [hc]

/-- It has the same column. -/
theorem columnAfter_withReturns (before : List Char) :
    columnAfter (Text.withReturns before.reverse).reverse = columnAfter before := by
  rw [columnAfter, columnAfter]
  congr 2
  induction before with
  | nil => rfl
  | cons c before ih =>
    rw [Text.reverse_withReturns_cons]
    by_cases hc : c = '\n'
    · subst hc
      rfl
    · simp [hc, ih]

namespace Match

/-- The match in the text with carriage returns. -/
def withReturns (m : Match) : Match :=
  ⟨(Text.withReturns m.before.reverse).reverse, m.text, Text.withReturns m.after, m.groups⟩

/-- A match in a line, put into the text with carriage returns around it. -/
theorem withReturns_within {m : Match} (hbefore : '\n' ∉ m.before) (hafter : '\n' ∉ m.after)
    (above tail : List Char) :
    (m.within above tail).withReturns
      = m.within (Text.withReturns above.reverse).reverse (Text.withReturns tail) := by
  have hback : '\n' ∉ m.before.reverse := by simpa using hbefore
  show (⟨(Text.withReturns (m.before ++ above).reverse).reverse, m.text,
    Text.withReturns (m.after ++ tail), m.groups⟩ : Match) = _
  rw [List.reverse_append, Text.withReturns_append, Text.withReturns_of_not_mem hback,
    List.reverse_append, List.reverse_reverse, Text.withReturns_append,
    Text.withReturns_of_not_mem hafter]
  rfl

end Match

/-! ## Matches -/

/-- The scanner does not stand in a string. -/
def ScanState.NotQuoted (s : ScanState) : Prop :=
  ∀ quote, s.kind ≠ .quoted quote

namespace Rule

variable {rule : Rule}

/-- The matches in a line are the same in the text with carriage returns around the line. -/
theorem map_within_matchesIn_withReturns {line : List Char} (hline : '\n' ∉ line)
    (state : ScanState) (above tail : List Char) :
    (rule.matchesIn state line).map
        (Match.within (Text.withReturns above.reverse).reverse (Text.withReturns tail))
      = ((rule.matchesIn state line).map (Match.within above tail)).map Match.withReturns := by
  rw [List.map_map]
  apply List.map_congr_left
  intro m hm
  obtain ⟨-, hwhole⟩ := (rule.pattern.allMatches_inOrder line).of_mem (List.mem_of_mem_filter hm)
  replace hwhole : line = m.before.reverse ++ (m.text ++ m.after) := hwhole
  rw [hwhole] at hline
  simp only [List.mem_append, List.mem_reverse, not_or] at hline
  exact (Match.withReturns_within hline.1 hline.2.2 above tail).symm

/-- The matches in lines whose terminators get carriage returns are the same. -/
theorem matchesByLine_withReturns {lines : List Line} (hlines : Line.AsRead lines)
    (hending : ∀ line ∈ lines, line.ending ≠ .carriageReturnLineFeed) {state : ScanState}
    (hstart : ScanState.AtLineStarts ScanState.NotQuoted state (Line.render lines))
    (above : List Char) :
    rule.matchesByLine state (Text.withReturns above.reverse).reverse
        (lines.map Line.withReturn)
      = (rule.matchesByLine state above lines).map Match.withReturns := by
  induction lines generalizing state above with
  | nil => rfl
  | cons line more ih =>
    have htext := hlines.lineFeed_not_mem line List.mem_cons_self
    have hending' := hending line List.mem_cons_self
    have hmoreEnding := fun l hl => hending l (List.mem_cons_of_mem line hl)
    have hbelow : line.withReturn.ending.toList ++ Line.render (more.map Line.withReturn)
        = Text.withReturns (line.ending.toList ++ Line.render more) := by
      rw [Line.render_map_withReturn hlines.tail.lineFeed_not_mem hmoreEnding,
        Text.withReturns_append, Line.withReturn_ending, Ending.toList_withReturn hending']
    have habove : line.withReturn.toList.reverse ++ (Text.withReturns above.reverse).reverse
        = (Text.withReturns (line.toList.reverse ++ above).reverse).reverse := by
      rw [List.reverse_append, List.reverse_reverse, Text.withReturns_append, List.reverse_append,
        Line.withReturn_toList htext hending']
    have hmore : rule.matchesByLine (state.after line.withReturn.toList)
        (line.withReturn.toList.reverse ++ (Text.withReturns above.reverse).reverse)
        (more.map Line.withReturn)
          = (rule.matchesByLine (state.after line.toList) (line.toList.reverse ++ above)
              more).map Match.withReturns := by
      cases more with
      | nil => rfl
      | cons next more =>
        obtain ⟨hstate, hstart'⟩ := hstart.tail hlines (List.cons_ne_nil next more)
        -- the line has a terminator, which is a line feed
        have hlineFeed : line.ending = .lineFeed := by
          cases h : line.ending with
          | missing => exact absurd (hlines.eq_nil_of_missing h) (List.cons_ne_nil next more)
          | lineFeed => rfl
          | carriageReturnLineFeed => exact absurd h hending'
        have hsame : state.after line.withReturn.toList = state.after line.toList := by
          rw [Line.toList, Line.toList, Line.withReturn_ending, hlineFeed]
          rw [Line.toList, hlineFeed] at hstate
          exact state.after_line_return line.text hstate
        rw [hsame, habove]
        exact ih hlines.tail hmoreEnding hstart' _
    rw [List.map_cons, matchesByLine, matchesByLine, hmore, List.map_append, hbelow,
      Line.withReturn_text, map_within_matchesIn_withReturns htext]

/-- A rule that sees no more than single lines has the same matches in a text with carriage returns,
if no string goes on over the end of a line. -/
theorem codeMatches_withReturns (hp : rule.pattern.StaysInLine) {text : List Char}
    (hreturn : '\r' ∉ text)
    (hstart : ScanState.AtLineStarts ScanState.NotQuoted .initial text) :
    rule.codeMatches (Text.withReturns text) = (rule.codeMatches text).map Match.withReturns := by
  have hlines := Line.asRead_ofText text
  have hlines' := Line.asRead_ofText (Text.withReturns text)
  have hboth : rule.matchesByLine .initial [] ((Line.ofText text).map Line.withReturn) = _ :=
    matchesByLine_withReturns hlines (Line.ending_ne_of_return_not_mem hreturn)
      (by rwa [Line.render_ofText]) []
  have hmatches := codeMatches_render hp hlines
  have hmatches' := codeMatches_render hp hlines'
  rw [Line.render_ofText] at hmatches hmatches'
  rw [hmatches, hmatches', Line.ofText_withReturns hreturn]
  exact hboth

end Rule

/-! ## Findings -/

variable {rules : List Rule} {text : List Char}

/-- What a scan finds before it makes findings of it: rules with their matches in code, in the order
of the findings. -/
def scanMatches (rules : List Rule) (text : List Char) : List (Rule × Match) :=
  (rules.flatMap fun rule => (rule.codeMatches text).map (rule, ·)).mergeSort fun a b =>
    Finding.positionLE (Finding.ofMatch a.1 a.2) (Finding.ofMatch b.1 b.2)

theorem scan_eq_map (rules : List Rule) (text : List Char) :
    scan rules text
      = (scanMatches rules text).map fun found => Finding.ofMatch found.1 found.2 := by
  rw [scan, scanMatches, List.map_mergeSort (s := Finding.positionLE) fun _ _ _ _ => rfl,
    List.map_flatMap]
  simp only [List.map_map]
  rfl

theorem mem_scanMatches {found : Rule × Match} :
    found ∈ scanMatches rules text ↔ found.1 ∈ rules ∧ found.2 ∈ found.1.codeMatches text := by
  rw [scanMatches, List.mem_mergeSort, List.mem_flatMap]
  constructor
  · rintro ⟨rule, hrule, hfound⟩
    obtain ⟨m, hm, rfl⟩ := List.mem_map.mp hfound
    exact ⟨hrule, hm⟩
  · rintro ⟨hrule, hm⟩
    exact ⟨found.1, hrule, List.mem_map.mpr ⟨found.2, hm, rfl⟩⟩

theorem line_ofMatch_withReturns (rule : Rule) (m : Match) :
    (Finding.ofMatch rule m.withReturns).line = (Finding.ofMatch rule m).line :=
  lineAfter_withReturns m.before

theorem column_ofMatch_withReturns (rule : Rule) (m : Match) :
    (Finding.ofMatch rule m.withReturns).column = (Finding.ofMatch rule m).column :=
  columnAfter_withReturns m.before

/-- Findings come in the same order with carriage returns. -/
theorem positionLE_withReturns (a b : Rule × Match) :
    Finding.positionLE (Finding.ofMatch a.1 a.2.withReturns) (Finding.ofMatch b.1 b.2.withReturns)
      = Finding.positionLE (Finding.ofMatch a.1 a.2) (Finding.ofMatch b.1 b.2) := by
  simp only [Finding.positionLE, line_ofMatch_withReturns, column_ofMatch_withReturns]

/-- A scan of the text with carriage returns finds the same matches in the same order. -/
theorem scanMatches_withReturns (hrules : ∀ rule ∈ rules, rule.pattern.StaysInLine)
    (hreturn : '\r' ∉ text)
    (hstart : ScanState.AtLineStarts ScanState.NotQuoted .initial text) :
    scanMatches rules (Text.withReturns text)
      = (scanMatches rules text).map fun found => (found.1, found.2.withReturns) := by
  rw [scanMatches, scanMatches, List.map_mergeSort
    (s := fun a b => Finding.positionLE (Finding.ofMatch a.1 a.2) (Finding.ofMatch b.1 b.2))
    fun a _ b _ => (positionLE_withReturns a b).symm, List.map_flatMap]
  congr 1
  apply List.flatMap_congr
  intro rule hrule
  rw [Rule.codeMatches_withReturns (hrules rule hrule) hreturn hstart, List.map_map, List.map_map]
  rfl

/-- What a finding says without byte offsets: the rule, the place, and the replacement. -/
def Finding.report (finding : Finding) : String × Nat × Nat × Option (List Char) :=
  (finding.rule, finding.line, finding.column, finding.fix.map (·.replacement))

theorem Rule.LineBound.report_withReturns {rule : Rule} (h : rule.LineBound) (m : Match) :
    (Finding.ofMatch rule m.withReturns).report = (Finding.ofMatch rule m).report := by
  have hfix : (Finding.ofMatch rule m.withReturns).fix.map (·.replacement)
      = (Finding.ofMatch rule m).fix.map (·.replacement) := by
    show ((rule.suggest? m.withReturns).map _).map _ = ((rule.suggest? m).map _).map _
    rw [h.suggest?_eq m m.withReturns rfl rfl, Option.map_map, Option.map_map]
    rfl
  rw [Finding.report, Finding.report, line_ofMatch_withReturns, column_ofMatch_withReturns, hfix]
  rfl

/-! ## Edits -/

namespace TextEdit

/-- The match stands in the text, and neither it nor its replacement holds a line feed. -/
structure InLineAt (text : List Char) (fix : Match × List Char) : Prop where
  text_eq : text = fix.1.before.reverse ++ (fix.1.text ++ fix.1.after)
  lineFeed_not_mem : '\n' ∉ fix.1.text
  lineFeed_not_mem_replacement : '\n' ∉ fix.2

theorem start_ofFix_withReturns (fix : Match × List Char) :
    (ofFix (fix.1.withReturns, fix.2)).start
      = Text.utf8Size (Text.withReturns fix.1.before.reverse) := by
  show Text.utf8Size (Text.withReturns fix.1.before.reverse).reverse = _
  rw [Text.utf8Size_reverse]

theorem start_ofFix (fix : Match × List Char) :
    (ofFix fix).start = Text.utf8Size fix.1.before.reverse := by
  rw [Text.utf8Size_reverse]
  rfl

theorem stop_ofFix (fix : Match × List Char) :
    (ofFix fix).stop = Text.utf8Size (fix.1.before.reverse ++ fix.1.text) := by
  rw [Text.utf8Size_append, ← start_ofFix]
  rfl

theorem InLineAt.stop_ofFix_withReturns {text : List Char} {fix : Match × List Char}
    (h : InLineAt text fix) : (ofFix (fix.1.withReturns, fix.2)).stop
      = Text.utf8Size (Text.withReturns (fix.1.before.reverse ++ fix.1.text)) := by
  rw [Text.withReturns_append, Text.withReturns_of_not_mem h.lineFeed_not_mem,
    Text.utf8Size_append, ← start_ofFix_withReturns]
  rfl

/-- Edits come in the same order with carriage returns. -/
theorem rangeLE_withReturns {text : List Char} {a b : Match × List Char} (ha : InLineAt text a)
    (hb : InLineAt text b) :
    rangeLE (ofFix (a.1.withReturns, a.2)) (ofFix (b.1.withReturns, b.2))
      = rangeLE (ofFix a) (ofFix b) := by
  have hstarts : ∀ {a b : Match × List Char}, InLineAt text a → InLineAt text b →
      ((ofFix (a.1.withReturns, a.2)).start ≤ (ofFix (b.1.withReturns, b.2)).start
        ↔ (ofFix a).start ≤ (ofFix b).start) := by
    intro a b ha hb
    rw [start_ofFix_withReturns, start_ofFix_withReturns, start_ofFix, start_ofFix]
    exact Text.utf8Size_withReturns_le_iff (ha.text_eq.symm.trans hb.text_eq)
  have hstops : (ofFix (a.1.withReturns, a.2)).stop ≤ (ofFix (b.1.withReturns, b.2)).stop
      ↔ (ofFix a).stop ≤ (ofFix b).stop := by
    rw [ha.stop_ofFix_withReturns, hb.stop_ofFix_withReturns, stop_ofFix, stop_ofFix]
    have hboth : (a.1.before.reverse ++ a.1.text) ++ a.1.after
        = (b.1.before.reverse ++ b.1.text) ++ b.1.after := by
      rw [List.append_assoc, List.append_assoc, ← ha.text_eq, ← hb.text_eq]
    exact Text.utf8Size_withReturns_le_iff hboth
  have hle := hstarts ha hb
  have hge := hstarts hb ha
  rw [Bool.eq_iff_iff]
  simp only [rangeLE, Bool.or_eq_true, decide_eq_true_eq, Bool.and_eq_true, beq_iff_eq]
  omega

/-- Edits replace the same pieces of a text with carriage returns, and as many of them. -/
theorem applyFrom_withReturns {fixes : List (Match × List Char)} (before rest : List Char)
    (hfixes : ∀ fix ∈ fixes, InLineAt (before ++ rest) fix) :
    applyFrom (Text.utf8Size (Text.withReturns before)) (Text.withReturns rest)
        (fixes.map fun fix => ofFix (fix.1.withReturns, fix.2))
      = (Text.withReturns (applyFrom (Text.utf8Size before) rest (fixes.map ofFix)).1,
          (applyFrom (Text.utf8Size before) rest (fixes.map ofFix)).2) := by
  induction fixes generalizing before rest with
  | nil => rfl
  | cons fix more ih =>
    rw [List.forall_mem_cons] at hfixes
    obtain ⟨hfix, hmore⟩ := hfixes
    -- both runs have come to the same place, so both drop the edit or neither does
    have hplace : Text.utf8Size (Text.withReturns before) ≤ (ofFix (fix.1.withReturns, fix.2)).start
        ↔ Text.utf8Size before ≤ (ofFix fix).start := by
      rw [start_ofFix_withReturns, start_ofFix]
      exact Text.utf8Size_withReturns_le_iff hfix.text_eq
    rw [List.map_cons, List.map_cons]
    by_cases hdropped : (ofFix fix).start < Text.utf8Size before
    · rw [applyFrom_cons_of_lt _ hdropped, applyFrom_cons_of_lt _ (by omega)]
      exact ih before rest hmore
    · have hahead : Text.utf8Size before ≤ Text.utf8Size fix.1.before.reverse := by
        rw [← start_ofFix]
        omega
      obtain ⟨kept, hbefore, rfl⟩ := Text.exists_of_append_eq_append hfix.text_eq hahead
      have hstart : (ofFix fix).start = Text.utf8Size (before ++ kept) := by
        rw [start_ofFix, hbefore]
      have hstop : (ofFix fix).stop = Text.utf8Size (before ++ (kept ++ fix.1.text)) := by
        rw [stop_ofFix, hbefore, List.append_assoc]
      have hstart' : (ofFix (fix.1.withReturns, fix.2)).start
          = Text.utf8Size (Text.withReturns before ++ Text.withReturns kept) := by
        rw [start_ofFix_withReturns, hbefore, Text.withReturns_append]
      have htext : Text.withReturns fix.1.text = fix.1.text :=
        Text.withReturns_of_not_mem hfix.lineFeed_not_mem
      have hbehind : (ofFix (fix.1.withReturns, fix.2)).stop
          = Text.utf8Size (Text.withReturns (before ++ (kept ++ fix.1.text))) := by
        rw [hfix.stop_ofFix_withReturns, hbefore, List.append_assoc]
      have hstop' : (ofFix (fix.1.withReturns, fix.2)).stop
          = Text.utf8Size (Text.withReturns before ++ (Text.withReturns kept ++ fix.1.text)) := by
        rw [hbehind, Text.withReturns_append, Text.withReturns_append, htext]
      have hrest := ih (before ++ (kept ++ fix.1.text)) fix.1.after fun e he => by
        simpa only [List.append_assoc] using hmore e he
      have hreplacement : Text.withReturns fix.2 = fix.2 :=
        Text.withReturns_of_not_mem hfix.lineFeed_not_mem_replacement
      rw [applyFrom_cons_of_places _ hstart hstop, Text.withReturns_append, Text.withReturns_append,
        htext, applyFrom_cons_of_places _ hstart' hstop', hbehind, hrest, ← hstop]
      simp only [Text.withReturns_append, ofFix, hreplacement]

end TextEdit

/-! ## Scans -/

/-- The fixes that a scan finds, each with the match that it replaces. -/
def scanFixes (rules : List Rule) (text : List Char) : List (Match × List Char) :=
  (scanMatches rules text).filterMap fun found =>
    (found.1.suggest? found.2).map (found.2, ·)

theorem filterMap_fix_scan (rules : List Rule) (text : List Char) :
    (scan rules text).filterMap (·.fix) = (scanFixes rules text).map TextEdit.ofFix := by
  rw [scan_eq_map, scanFixes, List.filterMap_map, List.map_filterMap]
  congr 1
  funext found
  show (Finding.ofMatch found.1 found.2).fix = _
  rw [Option.map_map]
  rfl

section Returns

variable (hrules : ∀ rule ∈ rules, rule.LineBound)
  (hlineEnds : ∀ rule ∈ rules, ∀ m : Match, m.Of rule.pattern → ∀ replacement,
    rule.suggest? m = some replacement → '\n' ∈ replacement → '\n' ∈ m.text)
include hrules hlineEnds

/-- Rules that see no more than single lines fix something in a line. -/
theorem inLineAt_of_mem_scanFixes {fix : Match × List Char} (h : fix ∈ scanFixes rules text) :
    TextEdit.InLineAt text fix := by
  obtain ⟨⟨rule, m⟩, hfound, hfix⟩ := List.mem_filterMap.mp h
  obtain ⟨replacement, hsuggest, rfl⟩ := Option.map_eq_some_iff.mp hfix
  obtain ⟨hrule, hm⟩ := mem_scanMatches.mp hfound
  obtain ⟨hof, htext, -⟩ := Rule.of_mem_codeMatches hm
  have hline : '\n' ∉ m.text := fun hmem =>
    hof.forall_mem (hrules rule hrule).staysInLine.onlyReads '\n' hmem rfl
  exact ⟨htext, hline, fun hmem => hline (hlineEnds rule hrule m hof replacement hsuggest hmem)⟩

/-- A scan of a text with carriage returns reports the same, and its fixes make the text that the
scan without them makes, with carriage returns, if no string goes on over the end of a line. -/
theorem scan_withReturns (hreturn : '\r' ∉ text)
    (hstart : ScanState.AtLineStarts ScanState.NotQuoted .initial text) :
    (scan rules (Text.withReturns text)).map Finding.report
        = (scan rules text).map Finding.report ∧
      applyFixes (Text.withReturns text) (scan rules (Text.withReturns text))
        = (Text.withReturns (applyFixes text (scan rules text)).1,
            (applyFixes text (scan rules text)).2) := by
  have hmatches := scanMatches_withReturns (fun rule hrule => (hrules rule hrule).staysInLine)
    hreturn hstart
  constructor
  · rw [scan_eq_map, scan_eq_map, hmatches, List.map_map, List.map_map, List.map_map]
    apply List.map_congr_left
    intro found hfound
    exact (hrules found.1 (mem_scanMatches.mp hfound).1).report_withReturns found.2
  · have hfixes : scanFixes rules (Text.withReturns text)
        = (scanFixes rules text).map fun fix => (fix.1.withReturns, fix.2) := by
      rw [scanFixes, scanFixes, hmatches, List.filterMap_map, List.map_filterMap]
      apply List.filterMap_congr
      intro found hfound
      have hrule := (mem_scanMatches.mp hfound).1
      show (found.1.suggest? found.2.withReturns).map _ = _
      rw [(hrules found.1 hrule).suggest?_eq found.2 found.2.withReturns rfl rfl, Option.map_map]
      rfl
    have hinLine : ∀ fix ∈ scanFixes rules text, TextEdit.InLineAt text fix :=
      fun fix hfix => inLineAt_of_mem_scanFixes hrules hlineEnds hfix
    -- both lists of edits are sorted in the same way
    have hsorted : ((scanFixes rules text).map TextEdit.ofFix).mergeSort TextEdit.rangeLE
        = ((scanFixes rules text).mergeSort fun a b =>
            TextEdit.rangeLE (TextEdit.ofFix a) (TextEdit.ofFix b)).map TextEdit.ofFix := by
      symm
      apply List.map_mergeSort
      exact fun _ _ _ _ => rfl
    have hsorted' : ((scanFixes rules text).map fun fix =>
          TextEdit.ofFix (fix.1.withReturns, fix.2)).mergeSort TextEdit.rangeLE
        = ((scanFixes rules text).mergeSort fun a b =>
            TextEdit.rangeLE (TextEdit.ofFix a) (TextEdit.ofFix b)).map fun fix =>
              TextEdit.ofFix (fix.1.withReturns, fix.2) := by
      symm
      apply List.map_mergeSort
      exact fun a ha b hb =>
        (TextEdit.rangeLE_withReturns (hinLine a ha) (hinLine b hb)).symm
    rw [applyFixes, applyFixes, filterMap_fix_scan, filterMap_fix_scan, hfixes, List.map_map]
    show TextEdit.applyFrom 0 _ (((scanFixes rules text).map fun fix =>
      TextEdit.ofFix (fix.1.withReturns, fix.2)).mergeSort TextEdit.rangeLE) = _
    rw [hsorted, hsorted']
    exact TextEdit.applyFrom_withReturns [] text fun fix hfix =>
      hinLine fix (List.mem_mergeSort.mp hfix)

end Returns

end SourceRepair
