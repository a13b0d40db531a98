import SourceRepair.Proofs.Rule.CodeFixes
import SourceRepair.Proofs.Scan.Computed
import SourceRepair.Proofs.TypeScript.LineByLine
import SourceRepair.Proofs.TypeScript.SameCode

/-!
# Runs of commas and semicolons

The two rules that are tried for every code make one mark out of several with blanks between them:
commas anywhere, and semicolons at the end of a line. `Collapses` is what they have in common. A
match of such a rule is a run of marks and blanks, and as long a run as there is (`maximal`), so no
mark follows it that could make a new run with the one left over. `rewrite_collapses` concludes that
one rewrite leaves nothing to do, in any text: no two marks are next to each other in code, and
the literals and comments are what they were.
-/

namespace SourceRepair.TypeScript

open Pattern LiteralSpans

/-- Marks of one kind and blanks. -/
def IsRun (mark : Char) (text : List Char) : Prop :=
  ∀ c ∈ text, c = mark ∨ c = ' ' ∨ c = '\t'

/-- The text goes on with the mark, after blanks or after more marks, and what follows the run
begins with a character that `stops` it, or is empty. -/
def RunAhead (mark : Char) (stops : Char → Prop) (rest : List Char) : Prop :=
  ∃ run tail, rest = run ++ tail ∧ IsRun mark run ∧ mark ∈ run ∧ ∀ c ∈ tail.head?, stops c

variable {mark : Char} {stops : Char → Prop}

theorem IsBlank.isRun {gap : List Char} (h : IsBlank gap) : IsRun mark gap :=
  fun c hc => Or.inr (h c hc)

theorem IsRun.append {s t : List Char} (hs : IsRun mark s) (ht : IsRun mark t) :
    IsRun mark (s ++ t) :=
  fun c hc => (List.mem_append.mp hc).elim (hs c) (ht c)

/-- Of a run with a mark in it, the first mark has only blanks in front of it. -/
theorem IsRun.exists_first {run : List Char} (h : IsRun mark run) (hmem : mark ∈ run) :
    ∃ gap more, run = gap ++ mark :: more ∧ IsBlank gap ∧ IsRun mark more := by
  obtain ⟨gap, more, rfl, hfirst⟩ := List.eq_append_cons_of_mem hmem
  refine ⟨gap, more, rfl, fun c hc => ?_, fun c hc => h c (by simp [hc])⟩
  exact (h c (by simp [hc])).resolve_left fun heq => hfirst (heq ▸ hc)

/-- The last mark has only blanks behind it. -/
theorem IsRun.exists_last {run : List Char} (h : IsRun mark run) (hmem : mark ∈ run) :
    ∃ front gap, run = front ++ mark :: gap ∧ IsRun mark front ∧ IsBlank gap := by
  have hreverse : IsRun mark run.reverse := fun c hc => h c (List.mem_reverse.mp hc)
  obtain ⟨gap, front, hrun, hgap, hfront⟩ :=
    hreverse.exists_first (List.mem_reverse.mpr hmem)
  refine ⟨front.reverse, gap.reverse, ?_, fun c hc => hfront c (List.mem_reverse.mp hc),
    fun c hc => hgap c (List.mem_reverse.mp hc)⟩
  rw [← List.reverse_inj, hrun]
  simp

/-! ## Rules that collapse runs -/

/-- The rule makes a single mark out of a run that begins with one, holds another one, and is
followed by a character that `stops` it or by nothing. -/
structure Collapses (rule : Rule) (mark : Char) (stops : Char → Prop) : Prop where
  onCode : rule.OnCode
  writes : ∀ m : Match, ∀ replacement, rule.fixer.bind (· m) = some replacement →
    replacement = [mark]
  reads : ∀ m : Match, m.Of rule.pattern → ∃ run, m.text = mark :: run ∧ IsRun mark run ∧
    mark ∈ run ∧ ∀ c ∈ m.after.head?, stops c
  /-- No match ends in front of more of its run. -/
  maximal : ∀ c m, rule.pattern.matchAt? c = some m → ¬RunAhead mark stops m.after
  exists_match : ∀ before rest, RunAhead mark stops rest →
    ∃ m, rule.pattern.matchAt? ⟨before, mark :: rest, []⟩ = some m

namespace Collapses

variable {rule : Rule} {text result : List Char}

/-- A run ahead in a rewritten text was one before. -/
theorem runAhead_of_goesOnAs (h : Collapses rule mark stops) {rest : List Char}
    (hgoesOn : Match.GoesOnAs (rule.fixes text) rest result)
    (hahead : RunAhead mark stops result) : RunAhead mark stops rest := by
  obtain ⟨run, tail, hresult, hrun, hmem, htail⟩ := hahead
  rcases hgoesOn with rfl | ⟨fix, hfix, skipped, more, rfl, hsplit⟩
  · exact ⟨run, tail, hresult, hrun, hmem, htail⟩
  obtain ⟨-, hof, hreplacement⟩ := h.onCode.of_mem_fixes hfix
  obtain ⟨inner, htext, hinner, hinnerMem, hafter⟩ := h.reads fix.1 hof
  rw [h.writes _ _ hreplacement] at hsplit
  have hboth : run ++ tail = skipped ++ mark :: more := hresult.symm.trans hsplit
  rcases Text.split_of_append_eq_append_cons hboth with ⟨back, rfl, -⟩ | ⟨between, rfl, rfl⟩
  · -- the run reaches over the fix, so it went on to the end of the match
    refine ⟨skipped ++ fix.1.text, fix.1.after, by simp, ?_, by simp [htext], hafter⟩
    rw [htext]
    refine IsRun.append (fun c hc => hrun c (by simp [hc])) fun c hc => ?_
    rcases List.mem_cons.mp hc with rfl | hc
    · exact Or.inl rfl
    · exact hinner c hc
  · refine ⟨run, between ++ (fix.1.text ++ fix.1.after), by simp, hrun, hmem, ?_⟩
    rw [htext]
    cases between with
    | nil => exact htail
    | cons c between => exact htail

/-- In a rewritten text no mark of code has a run ahead. -/
theorem not_runAhead (h : Collapses rule mark stops)
    (hchanged : rule.rewrite text = .changed result) {front back : List Char}
    (hresult : result = front ++ mark :: back)
    (hcode : (ScanState.initial.after front).kind = .code) : ¬RunAhead mark stops back := by
  intro hahead
  cases h.onCode.origin hchanged hresult hcode with
  | kept front' back' _ hsilent _ hgoesOn =>
    obtain ⟨m, hm⟩ := h.exists_match (front'.reverse ++ []) back'
      (h.runAhead_of_goesOnAs hgoesOn hahead)
    rw [hm] at hsilent
    exact absurd hsilent (by simp)
  | written fix hfix early late more htext hback hgoesOn =>
    obtain ⟨hmatch, -, hreplacement⟩ := h.onCode.of_mem_fixes hfix
    rw [h.writes _ _ hreplacement] at htext
    obtain ⟨-, -, rfl⟩ := Text.eq_of_singleton_eq_append htext
    rw [hback] at hahead
    exact h.maximal _ _ hmatch (h.runAhead_of_goesOnAs hgoesOn hahead)

/-- In a rewritten text the marks with a run ahead are in literals and comments. -/
theorem covers_of_runAhead (h : Collapses rule mark stops)
    (hchanged : rule.rewrite text = .changed result) (hmark : mark ∉ delimiters)
    {front back : List Char} (hresult : result = front ++ mark :: back)
    (hahead : RunAhead mark stops back) :
    Span.covers (literalSpans result) (Text.utf8Size front) = true := by
  rw [← Bool.not_eq_false, hresult, covers_eq_false_iff_after hmark]
  exact fun hcode => h.not_runAhead hchanged hresult hcode hahead

/-- A rewritten text is not changed again. -/
theorem rewrite_ne_changed (h : Collapses rule mark stops)
    (hchanged : rule.rewrite text = .changed result) (again : List Char) :
    rule.rewrite result ≠ .changed again := by
  intro hagain
  obtain ⟨m, hmatch, hresult, hcode⟩ := h.onCode.exists_match_of_changed hagain
  obtain ⟨run, htext, hrun, hmem, hafter⟩ := h.reads m (matchAt?_eq_some hmatch).2.2
  rw [htext] at hresult
  exact h.not_runAhead hchanged hresult hcode ⟨run, m.after, rfl, hrun, hmem, hafter⟩

end Collapses

/-! ## The rules for every code -/

section Reading

variable (word : String) {before rest gap run : List Char}

/-- Blanks and a mark. -/
theorem reads_round (hword : word.toList = [mark]) (hgap : IsBlank gap) :
    (Pattern.sequence [blanks, lit word]).Reads before (gap ++ [mark]) rest [] := by
  have h : (Pattern.sequence [blanks, lit word]).Reads before
      (gap ++ (word.toList ++ [])) rest [] :=
    reads_seq_nil (reads_blanks hgap) (reads_lit_seq ⟨rfl, rfl⟩)
  rwa [hword] at h

/-- A run that ends with a mark is read round by round. -/
theorem reads_rounds (hword : word.toList = [mark]) (hrun : IsRun mark run) :
    (many (Pattern.sequence [blanks, lit word])).Reads before (run ++ [mark]) rest [] := by
  induction hn : run.length using Nat.strongRecOn generalizing run before with
  | _ n ih =>
    subst hn
    by_cases hmem : mark ∈ run
    · obtain ⟨gap, more, rfl, hgap, hmore⟩ := hrun.exists_first hmem
      have hshorter : more.length < (gap ++ mark :: more).length := by
        rw [List.length_append, List.length_cons]
        omega
      have hround : (Pattern.sequence [blanks, lit word]).Reads before (gap ++ [mark])
          (more ++ [mark] ++ rest) [] := reads_round word hword hgap
      have h := Rounds.more (by simp) hround (ih more.length hshorter hmore rfl)
      rw [List.append_assoc, List.cons_append]
      rwa [List.append_assoc, List.singleton_append] at h
    · have hgap : IsBlank run := fun c hc =>
        (hrun c hc).resolve_left fun heq => hmem (heq ▸ hc)
      have hround : (Pattern.sequence [blanks, lit word]).Reads before (run ++ [mark])
          ([] ++ rest) [] := reads_round word hword hgap
      have h := Rounds.more (by simp) hround (Rounds.done _ rest)
      rwa [List.append_nil] at h

/-- Where as many rounds are read as the pattern prefers, no mark follows after blanks. -/
theorem ne_of_head?_ends_marks {c d : Cursor} {more : List Char} (hword : word.toList = [mark])
    (h : ((oneOrMore (Pattern.sequence [blanks, lit word])).ends c).head? = some d)
    (hgap : IsBlank gap) : d.rest ≠ gap ++ mark :: more := by
  intro hrest
  obtain ⟨_, -, hrounds⟩ := exists_head?_ends_of_seq h
  have hround : (⟨(gap ++ [mark]).reverse ++ d.before, more, d.groups⟩ : Cursor)
      ∈ (Pattern.sequence [blanks, lit word]).ends d :=
    (mem_ends_iff _ _ _).mpr
      ⟨gap ++ [mark], [], ⟨by simpa using hrest, rfl, rfl⟩, reads_round word hword hgap⟩
  refine not_lt_of_head?_rounds hrounds _ hround ?_
  show more.length < d.rest.length
  rw [hrest, List.length_append, List.length_cons]
  omega

/-- A run with a mark in it is read up to its last mark. -/
theorem exists_reads_marks (hrun : IsRun mark run) (hmem : mark ∈ run)
    (hword : word.toList = [mark]) :
    ∃ front gap, run = (front ++ [mark]) ++ gap ∧ IsBlank gap ∧ ∀ before rest,
      (oneOrMore (Pattern.sequence [blanks, lit word])).Reads before (front ++ [mark]) rest [] := by
  obtain ⟨front, gap, rfl, hfront, hgap⟩ := hrun.exists_last hmem
  refine ⟨front, gap, by simp, hgap, fun before rest => ?_⟩
  exact Reads.oneOrMore (reads_rounds word hword hfront) (by simp)

end Reading

/-- A run that begins with a mark is code, if the mark means nothing to the scanner. -/
theorem IsRun.codeWord {run : List Char} (hrun : IsRun mark run) (hdelimiter : mark ∉ delimiters)
    (hmark : mark ∉ marks) : CodeWord (mark :: run) where
  ne_nil := List.cons_ne_nil mark run
  head := by
    rintro _ ⟨⟩
    exact hdelimiter
  forall_mem := by
    refine List.forall_mem_cons.mpr ⟨hmark, fun c hc => ?_⟩
    rcases hrun c hc with rfl | rfl | rfl
    · exact hmark
    · decide
    · decide

/-- A rule that reads runs of a mark, of two marks at least, and writes one mark in their place
stays in code. -/
theorem onCode_of_reads_runs {rule : Rule} (hdelimiter : mark ∉ delimiters) (hmark : mark ∉ marks)
    (hstays : rule.pattern.StaysInLine) (hunmarked : rule.pattern.ReadsUnmarked)
    (hall : rule.firstOnly = false) (hfixer : rule.fixer = some fun _ => some [mark])
    (hreads : ∀ m : Match, m.Of rule.pattern →
      ∃ run, m.text = mark :: run ∧ IsRun mark run ∧ mark ∈ run) : rule.OnCode where
  staysInLine := hstays
  readsUnmarked := hunmarked
  firstOnly := hall
  reads m hm := by
    obtain ⟨run, htext, hrun, -⟩ := hreads m hm
    rw [htext]
    exact hrun.codeWord hdelimiter hmark
  suggests m hm := by
    obtain ⟨run, htext, -, hmem⟩ := hreads m hm
    have hne : [mark] ≠ m.text := by
      rw [htext]
      rintro heq
      rw [← (List.cons.inj heq).2] at hmem
      exact absurd hmem List.not_mem_nil
    have hnil : IsRun mark [] := fun _ hc => absurd hc List.not_mem_nil
    refine ⟨[mark], ?_, hnil.codeWord hdelimiter hmark⟩
    rw [Rule.suggest?, hfixer]
    exact Option.filter_some_pos (decide_eq_true hne)

/-- Blanks, a mark and more of a run are a run with a mark in it. -/
theorem isRun_of_shape {gap more : List Char} (hgap : IsBlank gap)
    (hmore : ∀ c ∈ more, c = mark ∨ c = ' ' ∨ c = '\t') :
    IsRun mark (gap ++ mark :: more) ∧ mark ∈ gap ++ mark :: more :=
  ⟨hgap.isRun.append (List.forall_mem_cons.mpr ⟨Or.inl rfl, hmore⟩), by simp⟩

/-- Commas collapse wherever they are. -/
theorem collapses_duplicateComma : Collapses duplicateComma ',' (fun _ => True) := by
  have hreads : ∀ m : Match, m.Of duplicateComma.pattern →
      ∃ run, m.text = ',' :: run ∧ IsRun ',' run ∧ ',' ∈ run := by
    intro m hm
    obtain ⟨gap, more, htext, hgap, hmore, -⟩ := duplicateComma_shape hm rfl
    exact ⟨gap ++ ',' :: more, htext, isRun_of_shape hgap hmore⟩
  refine ⟨?_, fun m replacement h => (Option.some.inj h).symm, fun m hm => ?_, ?_, ?_⟩
  · exact onCode_of_reads_runs (by decide) (by decide) (by decide) (by decide) rfl
      rfl hreads
  · obtain ⟨run, htext, hrun, hmem⟩ := hreads m hm
    exact ⟨run, htext, hrun, hmem, fun _ _ => trivial⟩
  · rintro c m hm ⟨run, tail, hafter, hrun, hmem, -⟩
    rw [matchAt?_eq, Option.map_eq_some_iff] at hm
    obtain ⟨d, hd, rfl⟩ := hm
    obtain ⟨e, -, he⟩ := exists_head?_ends_of_seq hd
    obtain ⟨gap, more, rfl, hgap, -⟩ := hrun.exists_first hmem
    rw [List.append_assoc, List.cons_append] at hafter
    rw [List.foldr_cons, List.foldr_nil, ends_seq_empty] at he
    exact ne_of_head?_ends_marks "," rfl he hgap hafter
  · rintro before rest ⟨run, tail, rfl, hrun, hmem, -⟩
    obtain ⟨front, gap, rfl, -, hmarks⟩ := exists_reads_marks "," hrun hmem rfl
    have hword : duplicateComma.pattern.Reads before ([','] ++ ((front ++ [',']) ++ []))
        (gap ++ tail) [] :=
      reads_lit_seq (reads_seq_nil (hmarks _ _) ⟨rfl, rfl⟩)
    simpa using hword.exists_matchAt?

/-- Semicolons collapse where the line ends behind them. -/
theorem collapses_duplicateSemicolon :
    Collapses duplicateSemicolon ';' (fun c => c = '\n' ∨ c = '\r') := by
  have hreads : ∀ m : Match, m.Of duplicateSemicolon.pattern →
      ∃ run, m.text = ';' :: run ∧ IsRun ';' run ∧ ';' ∈ run := by
    intro m hm
    obtain ⟨gap, more, htext, hgap, hmore, -⟩ := duplicateSemicolon_shape hm rfl
    exact ⟨gap ++ ';' :: more, htext, isRun_of_shape hgap hmore⟩
  have hbehind : ∀ m : Match, m.Of duplicateSemicolon.pattern → BreaksLine m.after :=
    fun m hm => Reads.breaksLine hm rfl
  refine ⟨?_, fun m replacement h => (Option.some.inj h).symm, fun m hm => ?_, ?_, ?_⟩
  · exact onCode_of_reads_runs (by decide) (by decide) (by decide) (by decide) rfl
      rfl hreads
  · obtain ⟨run, htext, hrun, hmem⟩ := hreads m hm
    exact ⟨run, htext, hrun, hmem, hbehind m hm⟩
  · rintro c m hm ⟨run, tail, hafter, hrun, hmem, -⟩
    -- the match goes on to the end of its line, and no run begins with a line end
    obtain ⟨d, run, rfl⟩ := List.exists_cons_of_ne_nil (List.ne_nil_of_mem hmem)
    have hend := hbehind m (matchAt?_eq_some hm).2.2 d (by rw [hafter]; rfl)
    rcases hrun d List.mem_cons_self with rfl | rfl | rfl <;> revert hend <;> decide
  · rintro before rest ⟨run, tail, rfl, hrun, hmem, htail⟩
    obtain ⟨front, gap, rfl, hgap, hmarks⟩ := exists_reads_marks ";" hrun hmem rfl
    have hend : ∀ before : List Char, (∀ c ∈ before.head?, c ≠ '\r') →
        lineEnd.Reads before [] tail [] :=
      fun before hbefore => ⟨rfl, rfl, Assertion.holds_lineEnd_of_breaksLine hbefore htail⟩
    have hword : duplicateSemicolon.pattern.Reads before
        ([';'] ++ ((front ++ [';']) ++ (gap ++ ([] ++ [])))) tail [] := by
      refine reads_lit_seq (reads_seq_nil (hmarks _ _) (reads_seq_nil (reads_blanks hgap)
        (reads_seq_nil (hend _ ?_) ⟨rfl, rfl⟩)))
      -- what stands in front of the line end is a mark of the run or a blank
      intro c hc
      rw [← List.append_assoc, ← List.reverse_append, List.head?_append_of_ne_nil _ (by simp)] at hc
      have hc := hrun c (List.mem_reverse.mp (List.mem_of_mem_head? hc))
      rintro rfl
      revert hc
      decide
    simpa using hword.exists_matchAt?

/-! ## One rewrite is enough -/

/-- One rewrite for commas, or for semicolons, keeps the literals and comments, leaves nothing to
rewrite, and leaves no two of the marks next to each other in code: no two commas with blanks
between them, and no two semicolons with blanks between them and blanks up to a line end behind
them. -/
theorem rewrite_collapses (text result : List Char) :
    (duplicateComma.rewrite text = .changed result →
      literalTexts result = literalTexts text ∧
      (∀ again, duplicateComma.rewrite result ≠ .changed again) ∧
      ∀ before gap after, result = before ++ ',' :: (gap ++ ',' :: after) → IsBlank gap →
        Span.covers (literalSpans result) (Text.utf8Size before) = true) ∧
    (duplicateSemicolon.rewrite text = .changed result →
      literalTexts result = literalTexts text ∧
      (∀ again, duplicateSemicolon.rewrite result ≠ .changed again) ∧
      ∀ before gap gap' after, result = before ++ ';' :: (gap ++ ';' :: (gap' ++ after)) →
        IsBlank gap → IsBlank gap' → BreaksLine after →
        Span.covers (literalSpans result) (Text.utf8Size before) = true) := by
  constructor
  · intro hchanged
    have hcollapses := collapses_duplicateComma
    refine ⟨hcollapses.onCode.literalTexts_eq hchanged, hcollapses.rewrite_ne_changed hchanged, ?_⟩
    intro before gap after hresult hgap
    refine hcollapses.covers_of_runAhead hchanged (by decide) hresult ?_
    exact ⟨gap ++ [','], after, by simp, hgap.isRun.append (by simp [IsRun]), by simp,
      fun _ _ => trivial⟩
  · intro hchanged
    have hcollapses := collapses_duplicateSemicolon
    refine ⟨hcollapses.onCode.literalTexts_eq hchanged, hcollapses.rewrite_ne_changed hchanged, ?_⟩
    intro before gap gap' after hresult hgap hgap' hafter
    refine hcollapses.covers_of_runAhead hchanged (by decide) hresult ?_
    exact ⟨gap ++ ';' :: gap', after, by simp, (isRun_of_shape hgap hgap'.isRun).1, by simp, hafter⟩

/-- Of two commas in a string and two in code, those in code become one; three semicolons at the end
of a line become one, and two that are not there stay. -/
theorem rewrite_collapses_call :
    let comma := "f(',,', a, ,b)".toList
    let semicolon := "for (;;) f(); ; ;\n".toList
    duplicateComma.rewrite comma = .changed "f(',,', a,b)".toList ∧
      (∀ again, duplicateComma.rewrite "f(',,', a,b)".toList ≠ .changed again) ∧
      duplicateSemicolon.rewrite semicolon = .changed "for (;;) f();\n".toList ∧
      ∀ again, duplicateSemicolon.rewrite "for (;;) f();\n".toList ≠ .changed again := by
  have hcomma : duplicateComma.rewrite "f(',,', a, ,b)".toList
      = .changed "f(',,', a,b)".toList := by
    rw [Rule.rewrite, Rule.fixes, Rule.codeMatches_eq_computedMatches]
    decide +kernel
  have hsemicolon : duplicateSemicolon.rewrite "for (;;) f(); ; ;\n".toList
      = .changed "for (;;) f();\n".toList := by
    rw [Rule.rewrite, Rule.fixes, Rule.codeMatches_eq_computedMatches]
    decide +kernel
  exact ⟨hcomma, ((rewrite_collapses _ _).1 hcomma).2.1, hsemicolon,
    ((rewrite_collapses _ _).2 hsemicolon).2.1⟩

end SourceRepair.TypeScript
