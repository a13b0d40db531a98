import SourceRepair.Proofs.Literal.Coverage
import SourceRepair.Proofs.Text.Lines

/-!
# Lines that are all comment

Strings and template literals do not count with their quotes, so a line that begins in code and is
covered from end to end holds nothing but comments. `isComment` reads such lines; a scan covers a
line that begins in code if and only if it is one (`isComment_of_covers`, `covers_of_isComment`),
whatever lines stand around it and wherever in a text it stands. This is what carries coverage over
from a file to the single lines that a repair sees, as long as no literal runs into the line from
the one above (`isComment_of_covers_line`).
-/

namespace SourceRepair

open Text

/-- Whether the line is made up of comments, given whether a block comment is open at its start. The
last one may be left open. -/
def isComment : Bool → List Char → Bool
  | _, [] => true
  | false, '/' :: '/' :: _ => true
  | false, '/' :: '*' :: rest => isComment true rest
  | false, _ => false
  | true, '*' :: '/' :: rest => isComment false rest
  | true, _ :: rest => isComment true rest

/-- Two characters of one byte each, such as those that open or close a comment, take two bytes. -/
theorem utf8Size_pair {c d : Char} (hc : c.utf8Size = 1) (hd : d.utf8Size = 1) (rest : List Char) :
    utf8Size (c :: d :: rest) = 2 + utf8Size rest := by
  rw [utf8Size_cons, utf8Size_cons, hc, hd, ← Nat.add_assoc]

namespace LiteralSpans

section Scan

variable (holes : List Nat) (start pos : Nat) (rest : List Char)

theorem scan_openLineComment :
    scan .code holes pos ('/' :: '/' :: rest) = scan (.lineComment pos) holes (pos + 2) rest := by
  rw [scan.eq_def]
  simp

theorem scan_openBlockComment :
    scan .code holes pos ('/' :: '*' :: rest) = scan (.blockComment pos) holes (pos + 2) rest := by
  rw [scan.eq_def]
  simp

theorem scan_closeBlockComment :
    scan (.blockComment start) holes pos ('*' :: '/' :: rest)
      = ⟨start, pos + 2⟩ :: scan .code holes (pos + 2) rest := by
  rw [scan.eq_def]
  simp

theorem scan_insideBlockComment {c : Char} (h : ∀ r, c = '*' → rest ≠ '/' :: r) :
    scan (.blockComment start) holes pos (c :: rest)
      = scan (.blockComment start) holes (pos + c.utf8Size) rest := by
  rw [scan.eq_def]
  by_cases hstar : c = '*'
  · subst hstar
    have hslash : ∀ r, rest ≠ '/' :: r := fun r => h r rfl
    have hsize : '*'.utf8Size = 1 := rfl
    rw [hsize]
    simp
  · simp only [if_neg hstar]

end Scan

/-- A character of a block comment that does not close it in its line does not close it in a text
that goes on behind the line. -/
theorem not_closing_of_breaksLine {c : Char} {line tail : List Char} (htail : BreaksLine tail)
    (h : ∀ r, c = '*' → line = '/' :: r → False) (r : List Char) (hstar : c = '*') :
    line ++ tail ≠ '/' :: r := by
  intro hslash
  cases line with
  | nil =>
    rw [List.nil_append] at hslash
    have := htail '/' (by rw [hslash]; rfl)
    exact absurd this (by decide)
  | cons d line =>
    obtain ⟨rfl, -⟩ := List.cons.inj hslash
    exact h line hstar rfl

/-- The mode at the start of a line that begins in code or in a block comment. -/
def lineMode (start : Nat) : Bool → ScanMode
  | false => .code
  | true => .blockComment start

/-! ## Comments are covered -/

/-- A line comment goes on to the end of the line. -/
theorem covers_lineComment {line : List Char} (hline : '\n' ∉ line) (holes : List Nat)
    {start pos offset : Nat} (tail : List Char) (hstart : start ≤ pos) (hlow : start ≤ offset)
    (hhigh : offset < pos + utf8Size line) :
    Span.covers (scan (.lineComment start) holes pos (line ++ tail)) offset = true := by
  induction line generalizing pos with
  | nil => exact covers_scan_of_lt holes tail hstart rfl hlow hhigh
  | cons c rest ih =>
    rw [List.mem_cons, not_or] at hline
    rw [utf8Size_cons, ← Nat.add_assoc] at hhigh
    rw [List.cons_append, scan.eq_def]
    simp only [if_neg (Ne.symm hline.1)]
    exact ih hline.2 (by omega) hhigh

/-- A line that is all comment is covered, whatever is around it. -/
theorem covers_of_isComment {inside : Bool} {line : List Char} (h : isComment inside line)
    (hline : '\n' ∉ line) (holes : List Nat) {start pos : Nat} {tail : List Char}
    (htail : BreaksLine tail) (hstart : start ≤ pos) {offset : Nat} (hlow : pos ≤ offset)
    (hhigh : offset < pos + utf8Size line) :
    Span.covers (scan (lineMode start inside) holes pos (line ++ tail)) offset = true := by
  fun_induction isComment inside line generalizing start pos with
  | case1 =>
    rw [utf8Size_nil] at hhigh
    omega
  | case2 rest =>
    have hrest : '\n' ∉ rest := fun hmem => hline (by simp [hmem])
    have hsize : utf8Size ('/' :: '/' :: rest) = 2 + utf8Size rest := utf8Size_pair rfl rfl rest
    rw [lineMode, List.cons_append, List.cons_append, scan_openLineComment]
    exact covers_lineComment hrest holes tail (by omega) hlow (by omega)
  | case3 rest ih =>
    have hrest : '\n' ∉ rest := fun hmem => hline (by simp [hmem])
    have hsize : utf8Size ('/' :: '*' :: rest) = 2 + utf8Size rest := utf8Size_pair rfl rfl rest
    rw [lineMode, List.cons_append, List.cons_append, scan_openBlockComment]
    by_cases hopener : offset < pos + 2
    · exact covers_scan_of_lt holes _ (Nat.le_add_right pos 2) rfl hlow hopener
    · exact ih h hrest (Nat.le_add_right pos 2) (by omega) (by omega)
  | case4 => exact absurd h (by simp)
  | case5 rest ih =>
    have hrest : '\n' ∉ rest := fun hmem => hline (by simp [hmem])
    have hsize : utf8Size ('*' :: '/' :: rest) = 2 + utf8Size rest := utf8Size_pair rfl rfl rest
    rw [lineMode, List.cons_append, List.cons_append, scan_closeBlockComment]
    by_cases hcloser : offset < pos + 2
    · rw [Span.covers_cons_of_lt_stop hcloser]
      exact decide_eq_true (Nat.le_trans hstart hlow)
    · have hended : ∀ span ∈ [(⟨start, pos + 2⟩ : Span)], span.stop ≤ offset := by
        simpa using Nat.le_of_not_lt hcloser
      rw [← List.singleton_append, Span.covers_append_of_stop_le hended]
      exact ih h hrest (Nat.zero_le (pos + 2)) (by omega) (by omega)
  | case6 c rest hnot ih =>
    have hrest : '\n' ∉ rest := fun hmem => hline (List.mem_cons_of_mem c hmem)
    have hsize := Char.utf8Size_pos c
    rw [utf8Size_cons] at hhigh
    rw [lineMode, List.cons_append,
      scan_insideBlockComment _ _ _ _ (not_closing_of_breaksLine htail hnot)]
    by_cases hfirst : offset < pos + c.utf8Size
    · exact covers_scan_of_lt holes _ (Nat.le_trans hstart (Nat.le_add_right _ _)) rfl
        (Nat.le_trans hstart hlow) hfirst
    · exact ih h hrest (Nat.le_trans hstart (Nat.le_add_right _ _)) (by omega) (by omega)

/-! ## Covered lines are comments -/

/-- In code only the opening of a comment is covered. -/
theorem Step.eq_of_covered {pos : Nat} {token : List Char} {spans : List Span} {next : ScanMode}
    (h : Step pos .code token true spans next) : ∃ c, (c = '/' ∨ c = '*') ∧ token = ['/', c] := by
  cases h with
  | openedComment c hc => exact ⟨c, hc, rfl⟩
  | inside _ _ hmode => exact absurd hmode (by simp [ScanMode.start?])
  | closedComment hmode => exact absurd hmode (by simp [ScanMode.start?])

/-- A text that begins in code with a covered character begins with a comment. -/
theorem exists_of_covers_code {holes : List Nat} {pos : Nat} {c : Char} {rest : List Char}
    (h : Span.covers (scan .code holes pos (c :: rest)) pos = true) :
    c = '/' ∧ ∃ d r, (d = '/' ∨ d = '*') ∧ rest = d :: r := by
  have hfits : ScanMode.code.Fits pos := trivial
  obtain ⟨s⟩ := exists_firstStep holes pos c rest hfits
  have hstep := s.step
  rw [s.covers_token hfits (Nat.le_refl pos) s.pos_lt_stop] at h
  rw [h] at hstep
  obtain ⟨d, hd, htoken⟩ := hstep.eq_of_covered
  have htext := s.text_eq
  rw [htoken] at htext
  obtain ⟨rfl, hrest⟩ := List.cons.inj htext
  exact ⟨rfl, d, s.rest, hd, hrest⟩

/-- A line that is covered from end to end, and begins in code or in a block comment, is all
comment. -/
theorem isComment_of_covers {inside : Bool} {line : List Char} (holes : List Nat)
    {start pos : Nat} {tail : List Char} (htail : BreaksLine tail)
    (hcovers : ∀ offset, pos ≤ offset → offset < pos + utf8Size line →
      Span.covers (scan (lineMode start inside) holes pos (line ++ tail)) offset = true) :
    isComment inside line = true := by
  fun_induction isComment inside line generalizing start pos with
  | case1 => rfl
  | case2 => rfl
  | case3 rest ih =>
    have hsize : utf8Size ('/' :: '*' :: rest) = 2 + utf8Size rest := utf8Size_pair rfl rfl rest
    refine @ih pos (pos + 2) fun offset hlow hhigh => ?_
    have hcovered := hcovers offset (by omega) (by omega)
    rwa [lineMode, List.cons_append, List.cons_append, scan_openBlockComment] at hcovered
  | case4 line hnil hline hblock =>
    obtain ⟨c, rest, rfl⟩ := List.exists_cons_of_ne_nil hnil
    have hsize := Char.utf8Size_pos c
    have hfirst := hcovers pos (Nat.le_refl pos) (by rw [utf8Size_cons]; omega)
    obtain ⟨rfl, d, r, hd, hrest⟩ := exists_of_covers_code hfirst
    cases rest with
    | nil =>
      have htail' : tail = d :: r := hrest
      have hend := htail d (by rw [htail']; rfl)
      rcases hd with rfl | rfl <;> exact absurd hend (by decide)
    | cons e rest =>
      obtain ⟨rfl, -⟩ := List.cons.inj hrest
      rcases hd with rfl | rfl
      · exact absurd rfl (hline rest)
      · exact absurd rfl (hblock rest)
  | case5 rest ih =>
    have hsize : utf8Size ('*' :: '/' :: rest) = 2 + utf8Size rest := utf8Size_pair rfl rfl rest
    refine @ih 0 (pos + 2) fun offset hlow hhigh => ?_
    have hcovered := hcovers offset (by omega) (by omega)
    have hended : ∀ span ∈ [(⟨start, pos + 2⟩ : Span)], span.stop ≤ offset := by simpa using hlow
    rwa [lineMode, List.cons_append, List.cons_append, scan_closeBlockComment,
      ← List.singleton_append, Span.covers_append_of_stop_le hended] at hcovered
  | case6 c rest hnot ih =>
    refine @ih start (pos + c.utf8Size) fun offset hlow hhigh => ?_
    have hcovered := hcovers offset (by omega) (by rw [utf8Size_cons]; omega)
    rwa [lineMode, List.cons_append,
      scan_insideBlockComment _ _ _ _ (not_closing_of_breaksLine htail hnot)] at hcovered

/-! ## The start of a line -/

/-- A step that reads a line feed stops there, and begins nothing. -/
theorem Step.eq_of_lineFeed {pos : Nat} {mode next : ScanMode} {token : List Char}
    {covered : Bool} {spans : List Span} (h : Step pos mode token covered spans next)
    {before back : List Char} (htoken : token = before ++ '\n' :: back) :
    back = [] ∧ (next = .code ∨ next = mode) := by
  cases h with
  | code c =>
    obtain ⟨-, -, hback⟩ := eq_of_singleton_eq_append htoken
    exact ⟨hback, Or.inl rfl⟩
  | opened c hc =>
    obtain ⟨rfl, -, -⟩ := eq_of_singleton_eq_append htoken
    exact absurd hc (by decide)
  | openedComment c hc =>
    rcases eq_of_pair_eq_append htoken with hslash | ⟨rfl, -⟩
    · exact absurd hslash (by decide)
    · exact absurd hc (by decide)
  | inside _ hshape =>
    obtain ⟨c, hsingle | hpair⟩ := hshape
    · rw [hsingle] at htoken
      obtain ⟨-, -, hback⟩ := eq_of_singleton_eq_append htoken
      exact ⟨hback, Or.inr rfl⟩
    · rw [hpair] at htoken
      rcases eq_of_pair_eq_append htoken with hescape | ⟨-, hback⟩
      · exact absurd hescape (by decide)
      · exact ⟨hback, Or.inr rfl⟩
  | closed c =>
    obtain ⟨-, -, hback⟩ := eq_of_singleton_eq_append htoken
    exact ⟨hback, Or.inl rfl⟩
  | openedHole =>
    rcases eq_of_pair_eq_append htoken with h | ⟨h, -⟩ <;> exact absurd h (by decide)
  | closedComment =>
    rcases eq_of_pair_eq_append htoken with h | ⟨h, -⟩ <;> exact absurd h (by decide)

/-- At the start of a line the scanner stands in code, or in something that began before the line
feed. -/
theorem exists_mode_behind_lineFeed {mode : ScanMode} (holes : List Nat) {pos : Nat}
    (hfits : mode.Fits pos) (before after : List Char) :
    ∃ front mode' holes', (∀ span ∈ front, span.stop ≤ pos + utf8Size before + 1) ∧
      mode'.Fits (pos + utf8Size before) ∧
      scan mode holes pos (before ++ '\n' :: after)
        = front ++ scan mode' holes' (pos + utf8Size before + 1) after := by
  obtain ⟨r⟩ := exists_stepReading holes hfits before '\n' after
  have hplace := r.place_eq
  have hstop := r.step.stop_eq
  obtain ⟨hback, hnext⟩ := r.step.step.eq_of_lineFeed r.token_eq
  refine ⟨r.ended ++ r.step.spans, r.step.next, r.step.nextHoles, ?_, ?_, r.scan_behind hback⟩
  · have hsize : '\n'.utf8Size = 1 := rfl
    rw [r.token_eq, hback, utf8Size_append, utf8Size_cons, utf8Size_nil, hsize] at hstop
    intro span hspan
    rcases List.mem_append.mp hspan with hspan | hspan
    · have hended := r.stop_le_of_mem span hspan
      omega
    · have hended := r.step.stop_le_of_mem hspan
      omega
  · rcases hnext with hnext | hnext
    · rw [hnext]
      trivial
    · rw [hnext]
      exact r.fits.mono (by omega)

/-- Where a literal or comment is open and the next byte is covered, the span of what is open goes
on behind that byte. -/
theorem exists_span_of_covers {mode : ScanMode} {start : Nat} {holes : List Nat} {pos : Nat}
    {c : Char} {rest : List Char} (hfits : mode.Fits pos) (hmode : mode.start? = some start)
    (h : Span.covers (scan mode holes pos (c :: rest)) pos = true) :
    ∃ stop, (⟨start, stop⟩ : Span) ∈ scan mode holes pos (c :: rest) ∧ pos < stop := by
  obtain ⟨s⟩ := exists_firstStep holes pos c rest hfits
  have hstep := s.step
  rw [s.covers_token hfits (Nat.le_refl pos) s.pos_lt_stop] at h
  rw [h] at hstep
  rw [s.scan_rest]
  rcases hstep.stays_or_ends hmode with ⟨hnext, hspans⟩ | ⟨stop, hspans, -, hbehind⟩
  · have hmode' : s.next.start? = some start := by rw [hnext]; exact hmode
    obtain ⟨stop, more, hscan, hstop⟩ := exists_scan_eq_cons s.nextHoles s.rest s.next_fits hmode'
    refine ⟨stop, ?_, Nat.lt_of_lt_of_le s.pos_lt_stop hstop⟩
    rw [hspans, hscan]
    exact List.mem_cons_self
  · refine ⟨stop, ?_, hbehind rfl⟩
    rw [hspans]
    exact List.mem_cons_self

/-- Where a line starts, what is open has begun in the lines above. -/
theorem exists_mode_at_lineStart {before : List Char}
    (hbefore : before = [] ∨ ∃ above, before = above ++ ['\n']) (rest : List Char) :
    ∃ front mode holes, (∀ span ∈ front, span.stop ≤ utf8Size before) ∧
      mode.Fits (utf8Size before) ∧
      (∀ start, mode.start? = some start → start < utf8Size before) ∧
      literalSpans (before ++ rest) = front ++ scan mode holes (utf8Size before) rest := by
  have hcode : ScanMode.code.Fits 0 := trivial
  rcases hbefore with rfl | ⟨above, rfl⟩
  · exact ⟨[], .code, [], by simp, hcode, by simp [ScanMode.start?], rfl⟩
  · obtain ⟨front, mode, holes, hended, hfits, hscan⟩ :=
      exists_mode_behind_lineFeed [] hcode above rest
    have htext : (above ++ ['\n']) ++ rest = above ++ '\n' :: rest := by simp
    have hsize : utf8Size (above ++ ['\n']) = 0 + utf8Size above + 1 := by
      rw [utf8Size_append, Nat.zero_add]
      rfl
    rw [htext, hsize]
    refine ⟨front, mode, holes, hended, hfits.mono (Nat.le_succ _), ?_, hscan⟩
    intro start hmode
    exact Nat.lt_succ_of_le (hfits.start_le hmode)

/-- A line of a text that is covered from end to end is all comment, if no literal or comment runs
into it from above. -/
theorem isComment_of_covers_line {text before line after : List Char}
    (htext : text = before ++ (line ++ after))
    (hbefore : before = [] ∨ ∃ above, before = above ++ ['\n']) (hafter : BreaksLine after)
    (hne : line ≠ [])
    (hcovers : ∀ offset, utf8Size before ≤ offset → offset < utf8Size before + utf8Size line →
      Span.covers (literalSpans text) offset = true)
    (hstart : ∀ span ∈ literalSpans text,
      ¬(span.start < utf8Size before ∧ utf8Size before < span.stop)) :
    isComment false line = true := by
  obtain ⟨front, mode, holes, hended, hfits, hopen, hscan⟩ :=
    exists_mode_at_lineStart hbefore (line ++ after)
  rw [← htext] at hscan
  have hline : ∀ offset, utf8Size before ≤ offset → offset < utf8Size before + utf8Size line →
      Span.covers (scan mode holes (utf8Size before) (line ++ after)) offset = true := by
    intro offset hlow hhigh
    have hcovered := hcovers offset hlow hhigh
    rwa [hscan, Span.covers_append_of_stop_le fun span hspan =>
      Nat.le_trans (hended span hspan) hlow] at hcovered
  cases hmode : mode.start? with
  | none =>
    obtain rfl := ScanMode.eq_code_of_start?_eq_none hmode
    exact @isComment_of_covers false line holes 0 (utf8Size before) after hafter hline
  | some start =>
    -- something is open, and its span would run across the start of the line
    obtain ⟨c, rest, rfl⟩ := List.exists_cons_of_ne_nil hne
    have hsize := Char.utf8Size_pos c
    have hfirst := hline _ (Nat.le_refl _) (by rw [utf8Size_cons]; omega)
    obtain ⟨stop, hmem, hstop⟩ := exists_span_of_covers hfits hmode hfirst
    refine absurd ⟨hopen start hmode, hstop⟩ (hstart ⟨start, stop⟩ ?_)
    rw [hscan]
    exact List.mem_append_right front hmem

end LiteralSpans
end SourceRepair
