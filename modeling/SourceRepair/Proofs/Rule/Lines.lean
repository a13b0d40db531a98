import SourceRepair.Proofs.Literal.Masks
import SourceRepair.Proofs.Pattern.Lines
import SourceRepair.Proofs.Rule.Rewriting

/-!
# The matches of a rule, line by line

Which matches of a rule start in code depends on the state in which the scanner comes to them. So
the matches in a text are those in its lines, each line read from the state that the lines above
leave behind (`codeMatches_render`), and writing their replacements into the text is writing them
into the lines (`replaceAll_within`).
-/

namespace SourceRepair

namespace Rule

variable {rule : Rule}

/-- The matches of a rule in a text that the scanner reads from `state`, apart from those that start
in a literal or comment. -/
def matchesIn (rule : Rule) (state : ScanState) (text : List Char) : List Match :=
  (rule.pattern.allMatches text).filter fun m => (state.mask text)[m.before.length]? != some true

/-- The matches of a rule in code are those in a text that the scanner begins with. -/
theorem codeMatches_eq_matchesIn (hconsumes : rule.pattern.consumes = true) (text : List Char) :
    rule.codeMatches text = rule.matchesIn .initial text := by
  apply List.filter_congr
  intro m hm
  obtain ⟨hof, hwhole⟩ := (rule.pattern.allMatches_inOrder text).of_mem hm
  obtain ⟨c, more, hread⟩ := List.exists_cons_of_ne_nil (Pattern.Reads.ne_nil hof hconsumes)
  have htext : text = m.before.reverse ++ c :: (more ++ m.after) := by
    rw [hread] at hwhole
    exact hwhole
  have hfits : ScanMode.code.Fits 0 := trivial
  have hmask : (ScanState.initial.mask (m.before.reverse ++ c :: (more ++ m.after)))[_]? = some _ :=
    LiteralSpans.getElem?_mask hfits m.before.reverse c (more ++ m.after)
  rw [← htext, List.length_reverse, Nat.zero_add, Text.utf8Size_reverse] at hmask
  have hstart : (ScanState.initial.mask text)[m.before.length]?
      = some (Span.covers (literalSpans text) m.start) := hmask
  rw [hstart]
  cases Span.covers (literalSpans text) m.start <;> rfl

/-- The matches in lines that the scanner reads from `state`, as matches in the text that the lines
and what stands above them make up. -/
def matchesByLine (rule : Rule) (state : ScanState) (above : List Char) : List Line → List Match
  | [] => []
  | line :: more =>
    (rule.matchesIn state line.text).map
        (Match.within above (line.ending.toList ++ Line.render more))
      ++ matchesByLine rule (state.after line.toList) (line.toList.reverse ++ above) more

/-- A match in a line is literal in the whole text if it is in the line. -/
theorem filter_matchesByLine (hp : rule.pattern.StaysInLine) {lines : List Line}
    (hlines : Line.AsRead lines) {state : ScanState} {above : List Char} {front : List Bool}
    (hfront : front.length = above.length)
    (habove : lines ≠ [] → ∀ c ∈ above.head?, c = '\n') :
    (rule.pattern.matchesByLine above lines).filter
        (fun m => (front ++ state.mask (Line.render lines))[m.before.length]? != some true)
      = rule.matchesByLine state above lines := by
  induction lines generalizing state above front with
  | nil => rfl
  | cons line more ih =>
    have hsurrounds := hlines.surroundsLine (habove (List.cons_ne_nil line more))
    have hlength : (front ++ state.mask line.toList).length
        = (line.toList.reverse ++ above).length := by
      simp only [List.length_append, List.length_reverse, ScanState.length_mask, hfront]
      omega
    have hmore : (rule.pattern.matchesByLine (line.toList.reverse ++ above) more).filter
        (fun m => (front ++ state.mask (Line.render (line :: more)))[m.before.length]? != some true)
          = rule.matchesByLine (state.after line.toList) (line.toList.reverse ++ above) more := by
      rw [(state.render_cons_split hlines).1, ← List.append_assoc]
      exact ih hlines.tail hlength (Pattern.head?_behind_line hlines)
    rw [Pattern.matchesByLine, matchesByLine, List.filter_append, hmore, List.filter_map]
    congr 2
    apply List.filter_congr
    intro m hm
    -- the match starts inside the line, where the mask is that of the line
    have hinside : m.before.length < line.text.length := by
      obtain ⟨hof, hwhole⟩ := (rule.pattern.allMatches_inOrder line.text).of_mem hm
      have hread := List.length_pos_of_ne_nil (Pattern.Reads.ne_nil hof hp.consumes)
      have htotal := congrArg List.length hwhole
      simp only [List.reverse_nil, List.nil_append, List.length_append, List.length_reverse]
        at htotal
      omega
    have hindex : (m.within above (line.ending.toList ++ Line.render more)).before.length
        = front.length + m.before.length := by
      show (m.before ++ above).length = _
      rw [List.length_append, hfront, Nat.add_comm]
    have hmask : (state.mask (Line.render (line :: more)))[m.before.length]?
        = (state.mask line.text)[m.before.length]? := by
      rw [Line.render_cons, List.append_assoc, ← state.mask_line line.text hsurrounds.breaksLine,
        List.getElem?_take_of_lt hinside]
    show ((front ++ _)[(m.within above _).before.length]? != some true) = _
    rw [hindex, List.getElem?_append_right (Nat.le_add_right _ _), Nat.add_sub_cancel_left, hmask]

/-- The matches in code are found line by line. -/
theorem codeMatches_render (hp : rule.pattern.StaysInLine) {lines : List Line}
    (hlines : Line.AsRead lines) :
    rule.codeMatches (Line.render lines) = rule.matchesByLine .initial [] lines := by
  rw [codeMatches_eq_matchesIn hp.consumes, matchesIn, hp.allMatches_render hlines]
  have hempty : ([] : List Bool).length = ([] : List Char).length := rfl
  exact filter_matchesByLine hp hlines hempty fun _ => by simp

/-- The matches in the lines stand one after another in the text that the lines make up. -/
theorem matchesByLine_inOrder (hp : rule.pattern.StaysInLine) {lines : List Line}
    (hlines : Line.AsRead lines) (state : ScanState) {above : List Char}
    (habove : lines ≠ [] → ∀ c ∈ above.head?, c = '\n') :
    Match.InOrder rule.pattern above (Line.render lines)
      (rule.matchesByLine state above lines) := by
  rw [← filter_matchesByLine hp hlines (List.length_replicate (a := false)) habove]
  apply Match.InOrder.sublist List.filter_sublist
  rw [← hp.matchesFrom_render hlines habove]
  exact Pattern.matchesFrom_inOrder false above (Line.render lines)

end Rule

/-! ## Replacements in lines -/

namespace Match

variable {p : Pattern} {before rest : List Char} {fixes : List (Match × List Char)}

/-- What stands in front of all matches stays. -/
theorem replaceAll_append_left (front : List Char) (h : InOrder p before rest (fixes.map (·.1))) :
    replaceAll (front ++ rest) fixes = front ++ replaceAll rest fixes := by
  cases fixes with
  | nil => rfl
  | cons fix more =>
    obtain ⟨m, replacement⟩ := fix
    obtain ⟨skipped, rfl, -⟩ := h
    rw [← List.append_assoc, replaceAll_cons, replaceAll_cons, List.append_assoc]

/-- The replacements in a line and those behind it are written into the line and into what follows
it. -/
theorem replaceAll_within {above tail : List Char} {behind : List (Match × List Char)}
    {before' : List Char} (h : InOrder p before rest (fixes.map (·.1)))
    (hbehind : InOrder p before' tail (behind.map (·.1))) :
    replaceAll (rest ++ tail) (fixes.map (fun fix => (fix.1.within above tail, fix.2)) ++ behind)
      = replaceAll rest fixes ++ replaceAll tail behind := by
  induction fixes generalizing before rest with
  | nil => exact replaceAll_append_left rest hbehind
  | cons fix more ih =>
    obtain ⟨m, replacement⟩ := fix
    obtain ⟨skipped, rfl, -, -, hmore⟩ := h
    have hsplit : skipped ++ (m.text ++ m.after) ++ tail
        = skipped ++ ((m.within above tail).text ++ (m.within above tail).after) := by
      show _ = skipped ++ (m.text ++ (m.after ++ tail))
      simp only [List.append_assoc]
    rw [List.map_cons, List.cons_append, hsplit, replaceAll_cons, replaceAll_cons]
    show skipped ++ (replacement ++ replaceAll (m.after ++ tail) _) = _
    rw [ih hmore]
    simp only [List.append_assoc]

end Match

namespace Rule

variable {rule : Rule}

/-- The rule sees no more of a text than single lines: its pattern stays in a line, and a fix
depends on what the match read. -/
structure LineBound (rule : Rule) : Prop where
  staysInLine : rule.pattern.StaysInLine
  suggest?_eq : ∀ m m' : Match, m'.text = m.text → m'.groups = m.groups →
    rule.suggest? m' = rule.suggest? m

theorem suggested_append (rule : Rule) (front back : List Match) :
    rule.suggested (front ++ back) = rule.suggested front ++ rule.suggested back :=
  List.filterMap_append

/-- The fixes for matches in a line are the same in the text around it. -/
theorem LineBound.suggested_within (h : rule.LineBound) (above tail : List Char)
    (ms : List Match) :
    rule.suggested (ms.map (Match.within above tail))
      = (rule.suggested ms).map fun fix => (fix.1.within above tail, fix.2) := by
  rw [suggested, suggested, List.filterMap_map, List.map_filterMap]
  congr 1
  funext m
  show (rule.suggest? (m.within above tail)).map _ = _
  rw [h.suggest?_eq m (m.within above tail) rfl rfl, Option.map_map]
  rfl

/-! ## Rewriting line by line -/

/-- The line rewritten by a rule on its own; its terminator stays. -/
def rewriteLine (rule : Rule) (line : Line) : Line :=
  match rule.rewrite line.text with
  | .changed text => ⟨text, line.ending⟩
  | _ => line

/-- The line with the rule's fixes in it. -/
theorem rewriteLine_eq (rule : Rule) (line : Line) :
    rule.rewriteLine line = ⟨Match.replaceAll line.text (rule.fixes line.text), line.ending⟩ := by
  rw [rewriteLine]
  split
  · rename_i text hchanged
    rw [(rewrite_changed hchanged).2]
  · rename_i hunchanged
    have hfixes : rule.fixes line.text = [] := by
      by_contra hne
      exact hunchanged _ (rewrite_eq_changed_iff.mpr ⟨hne, rfl⟩)
    rw [hfixes]
    rfl

/-- If all lines start in code, the replacements in a text are those in the lines rewritten on their
own. -/
theorem LineBound.replaceAll_matchesByLine (h : rule.LineBound) (hall : rule.firstOnly = false)
    {lines : List Line} (hlines : Line.AsRead lines) {above : List Char}
    (habove : lines ≠ [] → ∀ c ∈ above.head?, c = '\n')
    (hstart : ScanState.AtLineStarts (· = .initial) .initial (Line.render lines)) :
    Match.replaceAll (Line.render lines)
        (rule.suggested (rule.matchesByLine .initial above lines))
      = Line.render (lines.map rule.rewriteLine) := by
  induction lines generalizing above with
  | nil => rfl
  | cons line more ih =>
    have habove' : more ≠ [] → ∀ c ∈ (line.toList.reverse ++ above).head?, c = '\n' :=
      Pattern.head?_behind_line hlines
    -- the lines below are rewritten like a text of their own, if there are any
    have hrest : Match.replaceAll (Line.render more) (rule.suggested
        (rule.matchesByLine (ScanState.initial.after line.toList) (line.toList.reverse ++ above)
          more)) = Line.render (more.map rule.rewriteLine) := by
      cases more with
      | nil => rfl
      | cons next more =>
        obtain ⟨hstate, hstart'⟩ := hstart.tail hlines (List.cons_ne_nil next more)
        rw [hstate] at hstart' ⊢
        exact ih hlines.tail habove' hstart'
    have hline := (rule.pattern.allMatches_inOrder line.text).sublist
      ((rule.map_fst_suggested_sublist (rule.matchesIn .initial line.text)).trans
        List.filter_sublist)
    have hbehind := (matchesByLine_inOrder h.staysInLine hlines.tail
      (ScanState.initial.after line.toList) habove').sublist (rule.map_fst_suggested_sublist _)
    have hfixes : rule.fixes line.text = rule.suggested (rule.matchesIn .initial line.text) := by
      rw [fixes_eq, hall, codeMatches_eq_matchesIn h.staysInLine.consumes]
      rfl
    have htail := Match.replaceAll_append_left line.ending.toList hbehind
    have hplace : line.toList.reverse ++ above
        = line.ending.toList.reverse ++ (line.text.reverse ++ above) := by
      rw [Line.toList, List.reverse_append, List.append_assoc]
    have hskipped := Match.InOrder.of_skip line.ending.toList (hplace ▸ hbehind)
    rw [matchesByLine, suggested_append, h.suggested_within, Line.render_cons, List.append_assoc,
      Match.replaceAll_within hline (by rw [hplace]; exact hskipped), htail, hrest, List.map_cons,
      Line.render_cons, rewriteLine_eq, hfixes, List.append_assoc]

end Rule

end SourceRepair
