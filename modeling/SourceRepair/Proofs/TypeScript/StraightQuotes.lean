import SourceRepair.Proofs.Literal.Ends
import SourceRepair.Proofs.Rule.Rewriting
import SourceRepair.Proofs.Scan.Computed
import SourceRepair.Proofs.TypeScript.Shapes

/-!
# Straight quotes close what they open

A text in curly quotes that stands in code becomes a string literal: in the rewritten text its body
is one span, from one straight quote to the other (`straightened_body_is_literal`).

Two things have to be granted, and `straightened_body_not_always_literal` shows that neither can be
left out. A body must not end in a backslash that takes the closing quote along, as in a path to a
directory. And where several texts are rewritten at once, each was found in the text as it was: a
quote or a backtick in one of them opened a literal there, and no longer does so between straight
quotes. So the matches in front must leave the scanner where it was. Then the rewritten text and the
original one can be read in step (`InStep`): behind each match and behind what is written for it the
scanner stands in code with the same holes open.
-/

namespace SourceRepair.TypeScript

open Pattern LiteralSpans

/-! ## Reading two texts in step -/

/-- Two texts leave the scanner in code with the same holes open, and no comment begins with the
last character of either. -/
structure InStep (front front' : List Char) : Prop where
  after_eq : ScanState.initial.after front' = ScanState.initial.after front
  code : (ScanState.initial.after front).kind = .code
  last : ∀ c ∈ front.getLast?, c ≠ '/'
  last' : ∀ c ∈ front'.getLast?, c ≠ '/'

theorem inStep_nil : InStep [] [] :=
  ⟨rfl, rfl, by simp, by simp⟩

/-- Behind the two texts the same characters are read the same way. -/
theorem InStep.after_append {front front' : List Char} (h : InStep front front')
    (back : List Char) :
    ScanState.initial.after (front' ++ back) = ScanState.initial.after (front ++ back) := by
  have hfront := ScanState.eq_of_kind_eq h.code
  have hfront' := h.after_eq.trans hfront
  exact (after_append_of_code hfront' (OpensNoComment.of_last h.last')).trans
    (after_append_of_code hfront (OpensNoComment.of_last h.last)).symm

/-! ## One match -/

/-- A text in curly quotes with straight quotes in place of them. The match stands in code, and its
body does not take the second quote along. -/
structure Straightened (fix : Match × List Char) (quote : Char) (body : List Char) : Prop where
  text_eq : ∃ opening closing, IsCurly opening ∧ IsCurly closing ∧
    fix.1.text = opening :: (body ++ [closing])
  replacement_eq : fix.2 = quote :: (body ++ [quote])
  mark : quote = '\'' ∨ quote = '"'
  free : ∀ c ∈ body, c ≠ quote ∧ c ≠ '\n'
  escape : ¬EndsInEscape body
  code : (ScanState.initial.after fix.1.before.reverse).kind = .code

theorem IsCurly.not_mem_delimiters {c : Char} (h : IsCurly c) : c ∉ delimiters := by
  have hcurly : c = '\u2018' ∨ c = '\u2019' ∨ c = '\u201C' ∨ c = '\u201D' := by
    simpa [IsCurly] using h
  rcases hcurly with rfl | rfl | rfl | rfl <;> decide

theorem IsCurly.ne_backslash {c : Char} (h : IsCurly c) : c ≠ '\\' := by
  rintro rfl
  exact absurd h (by simp [IsCurly])

/-- Every fix of the rule has this form, unless its body ends in such a backslash. -/
theorem exists_straightened {text : List Char} {fix : Match × List Char}
    (h : fix ∈ smartQuotes.fixes text) (hescape : ¬EndsInEscape fix.1.text.dropLast) :
    ∃ quote body, Straightened fix quote body := by
  obtain ⟨hof, hreplacement, -⟩ := Rule.mem_fixes h
  obtain ⟨opening, body, closing, quote, htext, hopening, hclosing, hmark, hbody, hwritten⟩ :=
    smartQuotes_shape hof hreplacement
  have hmatch : fix.1 ∈ smartQuotes.codeMatches text :=
    (smartQuotes.fixes_sublist text).mem (List.mem_map_of_mem h)
  obtain ⟨-, hwhole, hcode⟩ := Rule.of_mem_codeMatches hmatch
  have hdrop : fix.1.text.dropLast = opening :: body := by
    rw [htext, ← List.cons_append, List.dropLast_concat]
  rw [hdrop, endsInEscape_cons hopening.ne_backslash] at hescape
  refine ⟨quote, body, ⟨opening, closing, hopening, hclosing, htext⟩, hwritten, hmark,
    fun c hc => ⟨(hbody c hc).1, (hbody c hc).2.2⟩, hescape, ?_⟩
  rw [hwhole, htext, List.cons_append, Match.start, ← Text.utf8Size_reverse] at hcode
  exact (covers_eq_false_iff_after hopening.not_mem_delimiters _ _).mp hcode

namespace Straightened

variable {fix : Match × List Char} {quote : Char} {body : List Char}

/-- The straight quotes begin no comment with what stands in front of them. -/
theorem opensNoComment (h : Straightened fix quote body) (front back : List Char) :
    OpensNoComment front (fix.2 ++ back) := by
  intro _
  rw [h.replacement_eq]
  rcases h.mark with rfl | rfl <;> simp

/-- The body is one literal where the straight quotes are written in code. -/
theorem scan_eq (h : Straightened fix quote body) (holes : List Nat) (pos : Nat)
    (back : List Char) :
    LiteralSpans.scan .code holes pos (fix.2 ++ back)
        = ⟨pos + 1, pos + 1 + Text.utf8Size body⟩
          :: LiteralSpans.scan .code holes (pos + 1 + Text.utf8Size body + 1) back ∧
      ScanState.after ⟨.code, holes⟩ (fix.2 ++ back) = ScanState.after ⟨.code, holes⟩ back := by
  have hwritten : fix.2 ++ back = quote :: (body ++ quote :: back) := by
    rw [h.replacement_eq]
    simp
  rw [hwritten]
  exact scan_code_quoted h.mark h.free h.escape holes pos back

/-- If the match leaves the scanner where it was, texts that are in step in front of the match are
so behind it. -/
theorem inStep (h : Straightened fix quote body) {front' : List Char}
    (hfront : ScanState.initial.after front' = ScanState.initial.after fix.1.before.reverse)
    (hleaves : ScanState.initial.after (fix.1.before.reverse ++ fix.1.text)
      = ScanState.initial.after fix.1.before.reverse) :
    InStep (fix.1.before.reverse ++ fix.1.text) (front' ++ fix.2) := by
  obtain ⟨opening, closing, -, hclosing, htext⟩ := h.text_eq
  have hstate := ScanState.eq_of_kind_eq h.code
  have hwritten := (h.scan_eq (ScanState.initial.after fix.1.before.reverse).holes 0 []).2
  have happend := after_append_of_code (hfront.trans hstate) (h.opensNoComment front' [])
  rw [List.append_nil] at hwritten happend
  refine ⟨?_, ?_, ?_, ?_⟩
  · rw [hleaves, hstate]
    exact happend.trans hwritten
  · rw [hleaves]
    exact h.code
  · intro c hc
    rw [htext, ← List.cons_append, ← List.append_assoc, List.getLast?_concat] at hc
    obtain rfl := Option.some.inj hc
    rintro rfl
    exact hclosing.not_mem_delimiters (by decide)
  · intro c hc
    rw [h.replacement_eq, ← List.cons_append, ← List.append_assoc, List.getLast?_concat] at hc
    obtain rfl := Option.some.inj hc
    rcases h.mark with rfl | rfl <;> decide

end Straightened

/-! ## All matches -/

/-- Where texts in step are gone on with, one by its matches and the other by what is written for
them, the scanner stands in the same place in front of a match and of what is written for it. -/
theorem exists_replaceAll_eq {p : Pattern} {before rest front' : List Char} {m : Match}
    {replacement : List Char} {earlier later : List (Match × List Char)}
    (horder : Match.InOrder p before rest ((earlier ++ (m, replacement) :: later).map (·.1)))
    (hstep : InStep before.reverse front')
    (hearlier : ∀ fix ∈ earlier, ∃ quote body, Straightened fix quote body)
    (hleaves : ∀ fix ∈ earlier, ScanState.initial.after (fix.1.before.reverse ++ fix.1.text)
      = ScanState.initial.after fix.1.before.reverse) :
    ∃ between, Match.replaceAll rest (earlier ++ (m, replacement) :: later)
        = between ++ (replacement ++ Match.replaceAll m.after later) ∧
      ScanState.initial.after (front' ++ between) = ScanState.initial.after m.before.reverse := by
  induction earlier generalizing before rest front' with
  | nil =>
    obtain ⟨skipped, rfl, hbefore, -⟩ := horder
    refine ⟨skipped, Match.replaceAll_cons m replacement later, ?_⟩
    rw [hbefore, List.reverse_append, List.reverse_reverse]
    exact hstep.after_append skipped
  | cons fix earlier ih =>
    obtain ⟨skipped, rfl, hbefore, -, hmore⟩ := horder
    obtain ⟨⟨quote, body, hfix⟩, hearlier⟩ := List.forall_mem_cons.mp hearlier
    obtain ⟨hfixLeaves, hleaves⟩ := List.forall_mem_cons.mp hleaves
    have hskipped : ScanState.initial.after (front' ++ skipped)
        = ScanState.initial.after fix.1.before.reverse := by
      rw [hstep.after_append, hbefore, List.reverse_append, List.reverse_reverse]
    have hbehind : InStep (fix.1.text.reverse ++ fix.1.before).reverse
        (front' ++ skipped ++ fix.2) := by
      rw [List.reverse_append, List.reverse_reverse]
      exact hfix.inStep hskipped hfixLeaves
    obtain ⟨between, hreplaced, hafter⟩ := ih hmore hbehind hearlier hleaves
    refine ⟨skipped ++ (fix.2 ++ between), ?_, ?_⟩
    · rw [List.cons_append, Match.replaceAll_cons, hreplaced]
      simp only [List.append_assoc]
    · rw [← hafter]
      simp only [List.append_assoc]

/-- The body of a text in curly quotes is one literal of the rewritten text, between the two
straight quotes: the spans in front of it end in front of the first quote, and all others start
behind the second one. The bodies up to this one must not take their second quote along, and the
matches in front must leave the scanner where it was. -/
theorem straightened_body_is_literal {text : List Char} {m : Match} {replacement : List Char}
    {earlier later : List (Match × List Char)}
    (hfixes : smartQuotes.fixes text = earlier ++ (m, replacement) :: later)
    (hescape : ∀ fix ∈ earlier ++ [(m, replacement)], ¬EndsInEscape fix.1.text.dropLast)
    (hleaves : ∀ fix ∈ earlier, ScanState.initial.after (fix.1.before.reverse ++ fix.1.text)
      = ScanState.initial.after fix.1.before.reverse) :
    ∃ opening body closing quote front spans spans',
      m.text = opening :: (body ++ [closing]) ∧ replacement = quote :: (body ++ [quote]) ∧
      (quote = '\'' ∨ quote = '"') ∧
      smartQuotes.rewrite text
        = .changed (front ++ (replacement ++ Match.replaceAll m.after later)) ∧
      literalSpans (front ++ (replacement ++ Match.replaceAll m.after later))
        = spans ++ ⟨Text.utf8Size front + 1, Text.utf8Size front + 1 + Text.utf8Size body⟩
          :: spans' ∧
      (∀ span ∈ spans, span.stop ≤ Text.utf8Size front) ∧
      ∀ span ∈ spans', Text.utf8Size (front ++ replacement) ≤ span.start := by
  have hmem : ∀ fix ∈ earlier ++ [(m, replacement)], ∃ quote body, Straightened fix quote body := by
    intro fix hfix
    have hsome : fix ∈ smartQuotes.fixes text := by
      rw [hfixes]
      simp only [List.mem_append, List.mem_cons, List.not_mem_nil, or_false] at hfix ⊢
      tauto
    exact exists_straightened hsome (hescape fix hfix)
  obtain ⟨hearlier, hself⟩ := List.forall_mem_append.mp hmem
  obtain ⟨quote, body, hm⟩ := hself _ List.mem_cons_self
  obtain ⟨opening, closing, -, -, htext⟩ := hm.text_eq
  have horder := smartQuotes.fixes_inOrder text
  rw [hfixes] at horder
  obtain ⟨front, hresult, hafter⟩ := exists_replaceAll_eq horder inStep_nil hearlier hleaves
  have hstate := hafter.trans (ScanState.eq_of_kind_eq hm.code)
  have hspans := (scan_code_append hstate
    (hm.opensNoComment front (Match.replaceAll m.after later))).1
  rw [(hm.scan_eq _ _ _).1] at hspans
  have hfits : ScanMode.code.Fits 0 := trivial
  have hsize : Text.utf8Size (front ++ replacement)
      = Text.utf8Size front + 1 + Text.utf8Size body + 1 := by
    have hquote : quote.utf8Size = 1 := by rcases hm.mark with rfl | rfl <;> rfl
    have hwritten : replacement = quote :: (body ++ [quote]) := hm.replacement_eq
    rw [hwritten]
    simp only [Text.utf8Size_append, Text.utf8Size_cons, Text.utf8Size_nil, hquote]
    omega
  refine ⟨opening, body, closing, quote, front, _, _, htext, hm.replacement_eq, hm.mark, ?_, hspans,
    fun span hspan => ?_, fun span hspan => ?_⟩
  · rw [Rule.rewrite_eq_changed_iff, hfixes]
    exact ⟨by simp, hresult.symm⟩
  · have hstop := stop_le_of_mem_scan [] front hfits span hspan
    rwa [Nat.zero_add] at hstop
  · rw [hsize]
    exact le_start_of_mem_scan_code hspan

/-- Two texts in curly quotes on one line, one of them with a template literal in it. -/
theorem straightened_body_is_literal_second :
    let text := "\u201C\x60a\x60\u201D \u2018b\u2019".toList
    let first : Match × List Char := (⟨[], "\u201C\x60a\x60\u201D".toList, " \u2018b\u2019".toList,
      [("double", "\x60a\x60".toList)]⟩, "\"\x60a\x60\"".toList)
    let m : Match := ⟨" \u201D\x60a\x60\u201C".toList, "\u2018b\u2019".toList, [],
      [("single", ['b'])]⟩
    smartQuotes.fixes text = [first] ++ [(m, "'b'".toList)] ∧
      (∀ fix ∈ [first] ++ [(m, "'b'".toList)], ¬EndsInEscape fix.1.text.dropLast) ∧
      (∀ fix ∈ [first], ScanState.initial.after (fix.1.before.reverse ++ fix.1.text)
        = ScanState.initial.after fix.1.before.reverse) ∧
      ∃ opening body closing quote front spans spans',
        m.text = opening :: (body ++ [closing]) ∧ "'b'".toList = quote :: (body ++ [quote]) ∧
        (quote = '\'' ∨ quote = '"') ∧
        smartQuotes.rewrite text
          = .changed (front ++ ("'b'".toList ++ Match.replaceAll m.after [])) ∧
        literalSpans (front ++ ("'b'".toList ++ Match.replaceAll m.after []))
          = spans ++ ⟨Text.utf8Size front + 1, Text.utf8Size front + 1 + Text.utf8Size body⟩
            :: spans' ∧
        (∀ span ∈ spans, span.stop ≤ Text.utf8Size front) ∧
        ∀ span ∈ spans', Text.utf8Size (front ++ "'b'".toList) ≤ span.start := by
  intro text first m
  have hfixes : smartQuotes.fixes text = [first] ++ [(m, "'b'".toList)] := by
    rw [Rule.fixes, Rule.codeMatches_eq_computedMatches]
    decide +kernel
  have hescape : ∀ fix ∈ [first] ++ [(m, "'b'".toList)], ¬EndsInEscape fix.1.text.dropLast := by
    decide +kernel
  have hleaves : ∀ fix ∈ [first], ScanState.initial.after (fix.1.before.reverse ++ fix.1.text)
      = ScanState.initial.after fix.1.before.reverse := by
    decide +kernel
  exact ⟨hfixes, hescape, hleaves, straightened_body_is_literal hfixes hescape hleaves⟩

/-- The rule makes literals of its matches in a text: the body of each match that has no byte in a
literal or comment is a literal of the rewritten text. -/
def MakesLiterals (text : List Char) : Prop :=
  ∀ (m : Match) (replacement front : List Char) (earlier later : List (Match × List Char)),
    smartQuotes.fixes text = earlier ++ (m, replacement) :: later →
    (∀ offset, m.start ≤ offset → offset < m.stop →
      Span.covers (literalSpans text) offset = false) →
    smartQuotes.rewrite text
      = .changed (front ++ (replacement ++ Match.replaceAll m.after later)) →
    ⟨Text.utf8Size front + 1, Text.utf8Size front + Text.utf8Size replacement - 1⟩
      ∈ literalSpans (front ++ (replacement ++ Match.replaceAll m.after later))

/-- It does not do so in all texts. A backslash at the end of a body takes the closing quote along.
And an apostrophe in one match, which opened a literal up to the next one, no longer does so when it
stands in a literal itself; the next one then opens the literal that a second match ends up in. -/
theorem straightened_body_not_always_literal :
    ¬MakesLiterals "\u201CC:\\\u201D".toList ∧
      ¬MakesLiterals "\u201C'\u201D'\u2018x\u2019".toList := by
  constructor
  · intro hall
    let m : Match := ⟨[], "\u201CC:\\\u201D".toList, [], [("double", "C:\\".toList)]⟩
    have hfixes : smartQuotes.fixes "\u201CC:\\\u201D".toList = [] ++ [(m, "\"C:\\\"".toList)] := by
      rw [Rule.fixes, Rule.codeMatches_eq_computedMatches]
      decide +kernel
    have hspans : literalSpans "\u201CC:\\\u201D".toList = [] := by decide +kernel
    have hliteral := hall m "\"C:\\\"".toList [] [] [] hfixes
      (fun offset _ _ => by rw [hspans]; rfl)
      (Rule.rewrite_eq_changed_iff.mpr ⟨by rw [hfixes]; simp, by rw [hfixes]; rfl⟩)
    exact absurd hliteral (by decide +kernel)
  · intro hall
    let first : Match × List Char := (⟨[], "\u201C'\u201D".toList, "'\u2018x\u2019".toList,
      [("double", ['\''])]⟩, "\"'\"".toList)
    let m : Match := ⟨"'\u201D'\u201C".toList, "\u2018x\u2019".toList, [], [("single", ['x'])]⟩
    have hfixes : smartQuotes.fixes "\u201C'\u201D'\u2018x\u2019".toList
        = [first] ++ [(m, "'x'".toList)] := by
      rw [Rule.fixes, Rule.codeMatches_eq_computedMatches]
      decide +kernel
    have hspans : literalSpans "\u201C'\u201D'\u2018x\u2019".toList = [⟨4, 7⟩] := by decide +kernel
    have hstart : m.start = 8 := by decide +kernel
    have hliteral := hall m "'x'".toList "\"'\"'".toList [first] [] hfixes
      (fun offset hle _ => by
        have hbehind : ¬offset < 7 := by omega
        rw [hspans]
        simp [Span.covers, hbehind])
      (Rule.rewrite_eq_changed_iff.mpr ⟨by rw [hfixes]; simp, by rw [hfixes]; decide +kernel⟩)
    exact absurd hliteral (by decide +kernel)

end SourceRepair.TypeScript
