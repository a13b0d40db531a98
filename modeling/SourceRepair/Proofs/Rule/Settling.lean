import SourceRepair.Proofs.Pattern.Lines
import SourceRepair.Proofs.Rule.CodeFixes

/-!
# Texts that a rule leaves alone

A rule has settled a line if it does not change what it has made of it. For most rules a look at the
ends of a line is enough: a pattern that goes on to the end of a line matches no more than once in
it, so if no match ends like a replacement there is none in the rewritten line
(`settlesLines_of_last`).

A rule that matches anywhere may have many fixes in one text, and what it writes could make up a
match with what stands next to it. `Rule.Seals` keeps this apart: what the rule reads and what it
writes both go on to the next mark of some kind and differ right in front of it, so a match can
neither begin in a replacement nor reach into one. With that no text is changed twice
(`Seals.rewrite_ne_changed`).
-/

namespace SourceRepair

/-- The text has no line end in it. -/
def IsLine (text : List Char) : Prop :=
  ∀ c ∈ text, c ≠ '\n' ∧ c ≠ '\r'

namespace IsLine

variable {p : Pattern} {line : List Char} {m : Match}

/-- A pattern that goes on to the end of a line goes on to the end of the text. -/
theorem after_eq_nil (hline : IsLine line) (hend : p.endsAtLineEnd = true) (hm : m.Of p)
    {front : List Char} (htext : line = front ++ (m.text ++ m.after)) : m.after = [] := by
  cases hafter : m.after with
  | nil => rfl
  | cons c rest =>
    have hc := hline c (by rw [htext, hafter]; simp)
    have hbreak : c = '\n' ∨ c = '\r' := Pattern.Reads.breaksLine hm hend c (by rw [hafter]; rfl)
    exact absurd hbreak (not_or.mpr hc)

/-- A pattern that begins where a line begins does so where the text begins. -/
theorem before_eq_nil (hline : IsLine line) (hm : m.Of (.seq .lineStart p)) {back : List Char}
    (htext : line = m.before.reverse ++ back) : m.before = [] := by
  cases hbefore : m.before with
  | nil => rfl
  | cons c rest =>
    have hc := hline c (by rw [htext, hbefore]; simp)
    have hbreak := Assertion.eq_of_holds_lineStart (Pattern.Reads.holds_of_assertion hm) c
      (by rw [hbefore]; rfl)
    exact absurd hbreak (not_or.mpr hc)

end IsLine

namespace Rule

variable {rule : Rule} {text line result : List Char}

/-- What the rule makes of a line it does not change again. -/
def SettlesLines (rule : Rule) : Prop :=
  ∀ line result again, IsLine line → IsLine result → rule.rewrite line = .changed result →
    rule.rewrite result ≠ .changed again

/-- A changed text has a first fix, and other fixes behind it. -/
theorem exists_first_fix (h : rule.rewrite text = .changed result) :
    ∃ m replacement more, m.Of rule.pattern ∧ text = m.before.reverse ++ (m.text ++ m.after) ∧
      rule.fixer.bind (· m) = some replacement ∧
      Match.InOrder rule.pattern (m.text.reverse ++ m.before) m.after (more.map (·.1)) ∧
      result = m.before.reverse ++ (replacement ++ Match.replaceAll m.after more) := by
  obtain ⟨hne, rfl⟩ := rewrite_changed h
  obtain ⟨⟨m, replacement⟩, more, hfixes⟩ := List.exists_cons_of_ne_nil hne
  have horder := rule.fixes_inOrder text
  rw [hfixes] at horder ⊢
  obtain ⟨skipped, htext, hbefore, hof, hmore⟩ := horder
  replace htext : text = skipped ++ (m.text ++ m.after) := htext
  replace hbefore : m.before = skipped.reverse ++ [] := hbefore
  have hskipped : skipped = m.before.reverse := by
    rw [hbefore, List.append_nil, List.reverse_reverse]
  subst hskipped
  have hfix : (m, replacement) ∈ rule.fixes text := by
    rw [hfixes]
    exact List.mem_cons_self
  refine ⟨m, replacement, more, hof, htext, (mem_fixes hfix).2.1, hmore, ?_⟩
  rw [htext]
  exact Match.replaceAll_cons m replacement more

/-! ## Patterns at the ends of a line -/

/-- A pattern that goes on to the end of a line has one fix in it, at its end. -/
theorem exists_fix_at_end (hconsumes : rule.pattern.consumes = true)
    (hend : rule.pattern.endsAtLineEnd = true) (hline : IsLine line)
    (h : rule.rewrite line = .changed result) :
    ∃ m replacement, m.Of rule.pattern ∧ line = m.before.reverse ++ m.text ∧
      rule.fixer.bind (· m) = some replacement ∧ result = m.before.reverse ++ replacement := by
  obtain ⟨m, replacement, more, hof, htext, hreplacement, hmore, hresult⟩ := exists_first_fix h
  have hafter := hline.after_eq_nil hend hof htext
  rw [hafter] at htext hmore hresult
  have hnone : more = [] := by
    cases more with
    | nil => rfl
    | cons fix more =>
      obtain ⟨skipped, hrest, -, hother, -⟩ := hmore
      simp only [List.nil_eq, List.append_eq_nil_iff] at hrest
      exact absurd hrest.2.1 (Pattern.Reads.ne_nil hother hconsumes)
  rw [hnone, Match.replaceAll, List.append_nil] at hresult
  rw [List.append_nil] at htext
  exact ⟨m, replacement, hof, htext, hreplacement, hresult⟩

/-- A pattern that begins where a line begins has one fix in it, at its start. -/
theorem exists_fix_at_start {p : Pattern} (hp : rule.pattern = .seq .lineStart p)
    (hconsumes : rule.pattern.consumes = true) (hline : IsLine line)
    (h : rule.rewrite line = .changed result) :
    ∃ m replacement, m.Of rule.pattern ∧ line = m.text ++ m.after ∧
      rule.fixer.bind (· m) = some replacement ∧ result = replacement ++ m.after := by
  obtain ⟨m, replacement, more, hof, htext, hreplacement, hmore, hresult⟩ := exists_first_fix h
  have hstart : ∀ m : Match, m.Of rule.pattern →
      line = m.before.reverse ++ (m.text ++ m.after) → m.before = [] := by
    intro m hm hwhole
    rw [hp] at hm
    exact hline.before_eq_nil hm hwhole
  have hbefore := hstart m hof htext
  have hnone : more = [] := by
    cases more with
    | nil => rfl
    | cons fix more =>
      -- a second match would stand behind the first one, not at the start of the line
      have hother := hmore.of_mem List.mem_cons_self
      obtain ⟨between, hbetween⟩ := hmore.exists_before_eq List.mem_cons_self
      have hwhole : line = fix.1.before.reverse ++ (fix.1.text ++ fix.1.after) := by
        rw [← hother.2, htext, List.reverse_append, List.reverse_reverse, List.append_assoc]
      rw [hstart fix.1 hother.1 hwhole] at hbetween
      simp only [List.nil_eq, List.append_eq_nil_iff, List.reverse_eq_nil_iff] at hbetween
      exact absurd hbetween.2.1 (Pattern.Reads.ne_nil hof hconsumes)
  rw [hbefore] at htext hresult
  rw [hnone, Match.replaceAll] at hresult
  exact ⟨m, replacement, hof, htext, hreplacement, hresult⟩

/-- A line that is changed twice at its end has a second match that ends like the first fix, unless
nothing was left of the first match. -/
theorem exists_fix_at_end_of_changed_again {again : List Char}
    (hconsumes : rule.pattern.consumes = true) (hend : rule.pattern.endsAtLineEnd = true)
    (hline : IsLine line) (hresult : IsLine result) (hchanged : rule.rewrite line = .changed result)
    (hagain : rule.rewrite result = .changed again) :
    ∃ m replacement, m.Of rule.pattern ∧ rule.fixer.bind (· m) = some replacement ∧
      (replacement ≠ [] → ∃ other second, other.Of rule.pattern ∧
        rule.fixer.bind (· other) = some second ∧ other.text.getLast? = replacement.getLast?) := by
  obtain ⟨m, replacement, hof, -, hreplacement, rfl⟩ :=
    exists_fix_at_end hconsumes hend hline hchanged
  obtain ⟨other, second, hother, hwhole, hsecond, -⟩ :=
    exists_fix_at_end hconsumes hend hresult hagain
  refine ⟨m, replacement, hof, hreplacement, fun hne => ⟨other, second, hother, hsecond, ?_⟩⟩
  have hsame := congrArg List.getLast? hwhole
  rw [List.getLast?_append_of_ne_nil _ hne,
    List.getLast?_append_of_ne_nil _ (Pattern.Reads.ne_nil hother hconsumes)] at hsame
  exact hsame.symm

/-- If what a rule writes at the end of a line ends in a character that no match ends in, the rule
settles its lines. -/
theorem settlesLines_of_last {good : Char → Prop} (hconsumes : rule.pattern.consumes = true)
    (hend : rule.pattern.endsAtLineEnd = true) (hlast : rule.pattern.LastReads good)
    (hwrites : ∀ m : Match, m.Of rule.pattern → ∀ replacement,
      rule.fixer.bind (· m) = some replacement → ∃ c, replacement.getLast? = some c ∧ ¬good c) :
    rule.SettlesLines := by
  intro line result again hline hresult hchanged hagain
  obtain ⟨m, replacement, hof, hreplacement, hends⟩ :=
    exists_fix_at_end_of_changed_again hconsumes hend hline hresult hchanged hagain
  obtain ⟨c, hc, hbad⟩ := hwrites m hof replacement hreplacement
  obtain ⟨other, -, hother, -, hsame⟩ := hends (by
    rintro rfl
    exact absurd hc (by simp))
  exact hbad (Pattern.Reads.forall_last hother hlast c (hsame.trans hc))

/-- The same for a rule that always writes the same character at the end. -/
theorem settlesLines_of_last_eq {d : Char} (hconsumes : rule.pattern.consumes = true)
    (hend : rule.pattern.endsAtLineEnd = true) (hlast : rule.pattern.LastReads (· ≠ d))
    (hwrites : ∀ m replacement, rule.fixer.bind (· m) = some replacement →
      replacement.getLast? = some d) : rule.SettlesLines :=
  settlesLines_of_last hconsumes hend hlast fun m _ replacement h =>
    ⟨d, hwrites m replacement h, not_not.mpr rfl⟩

end Rule

/-! ## Sealed replacements -/

/-- Where two texts go on alike to their first mark, the same stands in front of it in both, however
much more one of them begins with. -/
theorem Text.getLast?_eq_of_first_mark {mark : Char} {early inner front back back' : List Char}
    (hinner : mark ∉ early ++ inner) (hfront : mark ∉ front) (hne : front ≠ [])
    (h : inner ++ mark :: back = front ++ mark :: back') :
    (early ++ inner).getLast? = front.getLast? := by
  have hkind : ∀ s : List Char, mark ∉ s → ∀ a ∈ s, a ≠ mark := fun s hs a ha heq => hs (heq ▸ ha)
  obtain ⟨rfl, -, -⟩ := eq_of_run_append_eq h
    (hkind inner fun hmem => hinner (List.mem_append_right early hmem)) (hkind front hfront)
    (not_not.mpr rfl) (not_not.mpr rfl)
  exact List.getLast?_append_of_ne_nil early hne

/-- The rule stays in code, and each of its matches and replacements goes on to the first `mark` in
it. In front of the mark stands the character `own` in a replacement, and another one in a match. -/
structure Rule.Seals (rule : Rule) (mark own : Char) : Prop where
  onCode : rule.OnCode
  reads : ∀ m : Match, m.Of rule.pattern → ∃ front c, m.text = front ++ [mark] ∧ mark ∉ front ∧
    front.getLast? = some c ∧ c ≠ own
  writes : ∀ m : Match, m.Of rule.pattern → ∀ replacement,
    rule.fixer.bind (· m) = some replacement → replacement.head? = m.text.head? ∧
      ∃ front, replacement = front ++ [mark] ∧ mark ∉ front ∧ front.getLast? = some own

namespace Rule.Seals

variable {rule : Rule} {mark own : Char} {text result : List Char} {m : Match}

/-- A match does not reach into a replacement that follows. -/
theorem exists_between (h : rule.Seals mark own) (hm : m.Of rule.pattern)
    {fix : Match × List Char} (hfix : fix ∈ rule.fixes text) {skipped more : List Char}
    (hread : m.text ++ m.after = skipped ++ (fix.2 ++ more)) :
    ∃ between, skipped = m.text ++ between ∧ m.after = between ++ (fix.2 ++ more) := by
  obtain ⟨-, hof, hreplacement⟩ := h.onCode.of_mem_fixes hfix
  obtain ⟨front, c, htext, hfront, hlast, hne⟩ := h.reads m hm
  obtain ⟨-, back, hwritten, hback, hown⟩ := h.writes fix.1 hof fix.2 hreplacement
  have hboth : skipped ++ (back ++ mark :: more) = front ++ mark :: m.after := by
    rw [htext, hwritten] at hread
    simpa using hread.symm
  rcases Text.split_of_append_eq_append_cons hboth with ⟨between, hskipped, hafter⟩ |
    ⟨inner, rfl, hrest⟩
  · refine ⟨between, by rw [hskipped, htext]; simp, ?_⟩
    rw [hafter, hwritten]
    simp
  · have hnonempty : back ≠ [] := by
      rintro rfl
      exact absurd hown (by simp)
    rw [Text.getLast?_eq_of_first_mark hfront hback hnonempty hrest.symm, hown] at hlast
    exact absurd (Option.some.inj hlast).symm hne

/-- No match begins in a replacement. -/
theorem not_reads_of_written (h : rule.Seals mark own) (hm : m.Of rule.pattern)
    {fix : Match × List Char} (hfix : fix ∈ rule.fixes text) {early late more : List Char}
    {c : Char} (hwritten : fix.2 = early ++ c :: late) :
    m.text ++ m.after ≠ c :: (late ++ more) := by
  intro hread
  obtain ⟨-, hof, hreplacement⟩ := h.onCode.of_mem_fixes hfix
  obtain ⟨front, d, htext, hfront, hlast, hne⟩ := h.reads m hm
  obtain ⟨-, back, hback, hmark, hown⟩ := h.writes fix.1 hof fix.2 hreplacement
  have hboth : early ++ c :: late = back ++ mark :: [] := hwritten.symm.trans hback
  rcases Text.split_of_append_eq_append_cons hboth with ⟨inner, -, hnil⟩ | ⟨inner, rfl, hinner⟩
  · exact absurd hnil (by simp)
  · have hrest : inner ++ mark :: more = front ++ mark :: m.after := by
      rw [← List.cons_append, hinner, htext] at hread
      simpa using hread.symm
    have hnonempty : front ≠ [] := by
      rintro rfl
      exact absurd hlast (by simp)
    rw [Text.getLast?_eq_of_first_mark hmark hfront hnonempty hrest, hlast] at hown
    exact hne (Option.some.inj hown)

/-- Texts that end alike, but for a fix of the rule, end with the same character. -/
theorem getLast?_eq (h : rule.Seals mark own) {front front' : List Char}
    (hends : Match.EndAlike (rule.fixes text) front front') :
    front'.getLast? = front.getLast? := by
  rcases hends with hsame | ⟨fix, hfix, hfront, hfront'⟩
  · exact hsame.symm
  · obtain ⟨-, hof, hreplacement⟩ := h.onCode.of_mem_fixes hfix
    obtain ⟨_, _, hread, -⟩ := h.reads fix.1 hof
    obtain ⟨-, _, hwritten, -⟩ := h.writes fix.1 hof fix.2 hreplacement
    rw [hfront, hfront', hread, hwritten, List.getLast?_concat, List.getLast?_concat]

/-- A match in the rewritten text that stands at a place of the text was one there. -/
theorem exists_match_of_kept (h : rule.Seals mark own) {front front' back back' : List Char}
    (hends : Match.EndAlike (rule.fixes text) front front')
    (hgoesOn : Match.GoesOnAs (rule.fixes text) back' back)
    (hm : rule.pattern.matchAt? ⟨front.reverse, back, []⟩ = some m) :
    ∃ other, rule.pattern.matchAt? ⟨front'.reverse, back', []⟩ = some other := by
  have hanchored := h.onCode.staysInLine.anchored
  have hbefore : front'.reverse.head? = front.reverse.head? := by
    rw [List.head?_reverse, List.head?_reverse, h.getLast?_eq hends]
  obtain ⟨hread, -, hof⟩ := Pattern.matchAt?_eq_some hm
  rcases hgoesOn with rfl | ⟨fix, hfix, skipped, more, rfl, rfl⟩
  · have halike := SurroundsAlike.of_head? back hbefore (rfl : ([] : List Char).head? = _)
    simpa using Pattern.exists_matchAt?_of_alike hanchored halike (by simpa using hm)
      (Nat.zero_le _)
  · obtain ⟨between, -, hafter⟩ := h.exists_between hof hfix hread.symm
    obtain ⟨-, hfixOf, hreplacement⟩ := h.onCode.of_mem_fixes hfix
    have hword := h.onCode.codeWord_of_mem_fixes hfix
    have hhead : (fix.1.text ++ fix.1.after).head? = (fix.2 ++ more).head? := by
      rw [List.head?_append_of_ne_nil _ hword.1.ne_nil,
        List.head?_append_of_ne_nil _ hword.2.ne_nil,
        (h.writes fix.1 hfixOf fix.2 hreplacement).1]
    have halike := SurroundsAlike.of_head? skipped hbefore hhead
    refine Pattern.exists_matchAt?_of_alike hanchored halike hm ?_
    rw [hafter]
    exact (List.suffix_append between _).length_le

/-- A rewritten text is not changed again. -/
theorem rewrite_ne_changed (h : rule.Seals mark own)
    (hchanged : rule.rewrite text = .changed result) (again : List Char) :
    rule.rewrite result ≠ .changed again := by
  intro hagain
  obtain ⟨m, hmatch, hresult, hcode⟩ := h.onCode.exists_match_of_changed hagain
  have hof := (Pattern.matchAt?_eq_some hmatch).2.2
  obtain ⟨c, more, htext⟩ := List.exists_cons_of_ne_nil (h.onCode.reads m hof).ne_nil
  have hplace : result = m.before.reverse ++ c :: (more ++ m.after) := by
    rw [hresult, htext]
    rfl
  cases h.onCode.origin hchanged hplace hcode with
  | written fix hfix early late behind hwritten hback _ =>
    have hread : m.text ++ m.after = c :: (late ++ behind) := by
      rw [htext, List.cons_append, hback]
    exact h.not_reads_of_written hof hfix hwritten hread
  | kept front' back' _ hsilent hends hgoesOn =>
    have hread : m.text ++ m.after = c :: (more ++ m.after) := by
      rw [htext]
      rfl
    rw [hread] at hmatch
    obtain ⟨other, hother⟩ :=
      h.exists_match_of_kept hends (hgoesOn.cons c) (by rwa [List.reverse_reverse])
    rw [List.append_nil, hother] at hsilent
    exact absurd hsilent (by simp)

end Rule.Seals

end SourceRepair
