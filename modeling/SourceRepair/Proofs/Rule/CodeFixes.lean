import SourceRepair.Proofs.Literal.Composition
import SourceRepair.Proofs.Rule.Literals
import SourceRepair.Proofs.Rule.Rewriting

/-!
# Fixes that stay in code

A rule that reads and writes nothing but code (`Rule.OnCode`) keeps the scanner on its way: in front
of each fix and behind it the scanner stands in code, with the same template holes open, in the text
and in the rewritten text. `CodeFixes` says so fix by fix, and also that no match in code is left
between the fixes. Two things follow by going through the fixes.

The literals and comments of the rewritten text are those of the text
(`literalTextsFrom_replaceAll`). And a character of the rewritten text that is code either was code
in the text, where the pattern did not match, or it stands in a replacement (`OnCode.origin`). So
whether a rule finds something to do in what it has rewritten is a question about the places next
to its fixes, and not about the texts around them.
-/

namespace SourceRepair

open Text LiteralSpans

/-- The word is code wherever it starts in code, whatever stands next to it. -/
structure CodeWord (word : List Char) : Prop where
  ne_nil : word ≠ []
  head : ∀ c ∈ word.head?, c ∉ delimiters
  forall_mem : ∀ c ∈ word, c ∉ marks

namespace CodeWord

variable {word : List Char}

theorem opensNoComment (h : CodeWord word) (front back : List Char) :
    OpensNoComment front (word ++ back) := by
  obtain ⟨c, rest, rfl⟩ := List.exists_cons_of_ne_nil h.ne_nil
  exact OpensNoComment.of_head (h.head c rfl)

theorem getLast?_ne (h : CodeWord word) : ∀ c ∈ word.getLast?, c ≠ '/' := by
  rintro c hc rfl
  exact h.forall_mem '/' (List.mem_of_getLast? hc) (by decide)

/-- Behind the word the scanner goes on as in front of it. -/
theorem after_append (h : CodeWord word) (holes : List Nat) (back : List Char) :
    ScanState.after ⟨.code, holes⟩ (word ++ back) = ScanState.after ⟨.code, holes⟩ back :=
  after_append_of_code (ScanState.after_of_forall h.forall_mem)
    (OpensNoComment.of_last h.getLast?_ne)

/-- The word is code if the scanner stands in code in front of it. -/
theorem covers_eq_false_iff (h : CodeWord word) {text before after : List Char}
    (htext : text = before ++ (word ++ after)) :
    Span.covers (literalSpans text) (utf8Size before) = false ↔
      (ScanState.initial.after before).kind = .code := by
  obtain ⟨c, rest, rfl⟩ := List.exists_cons_of_ne_nil h.ne_nil
  rw [htext]
  exact covers_eq_false_iff_after (h.head c rfl) before (rest ++ after)

end CodeWord

/-- The pattern reads something that begins with no delimiter, and no marks. -/
structure Pattern.ReadsCodeWords (p : Pattern) : Prop where
  consumes : p.consumes = true
  first : ∀ c ∈ delimiters, p.FirstReads (· ≠ c)
  only : ∀ c ∈ marks, p.OnlyReads (· ≠ c)

theorem Pattern.readsCodeWords_iff {p : Pattern} : p.ReadsCodeWords ↔
    p.consumes = true ∧ (delimiters.all fun c => decide (p.FirstReads (· ≠ c))) = true ∧
      (marks.all fun c => decide (p.OnlyReads (· ≠ c))) = true := by
  simp only [List.all_eq_true, decide_eq_true_eq]
  exact ⟨fun ⟨h₁, h₂, h₃⟩ => ⟨h₁, h₂, h₃⟩, fun ⟨h₁, h₂, h₃⟩ => ⟨h₁, h₂, h₃⟩⟩

instance (p : Pattern) : Decidable p.ReadsCodeWords :=
  decidable_of_iff _ Pattern.readsCodeWords_iff.symm

/-- What such a pattern reads is code. -/
theorem Pattern.ReadsCodeWords.codeWord {p : Pattern} (hp : p.ReadsCodeWords) {m : Match}
    (hm : m.Of p) : CodeWord m.text where
  ne_nil := Pattern.Reads.ne_nil hm hp.consumes
  head c hc hdelimiter := Pattern.Reads.forall_head hm (hp.first c hdelimiter) c hc rfl
  forall_mem c hc hmark := Pattern.Reads.forall_mem hm (hp.only c hmark) c hc rfl

/-- The rule reads and writes only code, and has a fix for every match. -/
structure Rule.OnCode (rule : Rule) : Prop where
  staysInLine : rule.pattern.StaysInLine
  readsUnmarked : rule.pattern.ReadsUnmarked
  firstOnly : rule.firstOnly = false
  reads : ∀ m : Match, m.Of rule.pattern → CodeWord m.text
  suggests : ∀ m : Match, m.Of rule.pattern →
    ∃ replacement, rule.suggest? m = some replacement ∧ CodeWord replacement

/-- Tried at a place in `part` where the scanner stands in code, the pattern does not match. In
front of `part` stands `before`, nearest character first, behind which the scanner is in code with
`holes` open, and behind it stands `tail`. -/
def Pattern.SilentIn (p : Pattern) (before : List Char) (holes : List Nat)
    (part tail : List Char) : Prop :=
  ∀ front c back, part = front ++ c :: back →
    (ScanState.after ⟨.code, holes⟩ front).kind = .code →
    p.matchAt? ⟨front.reverse ++ before, c :: (back ++ tail), []⟩ = none

namespace Match

/-- The fixes stand one after another in `rest`, each where the scanner stands in code, and the
pattern does not match in code between them. In front of `rest` stands `before`, nearest character
first, behind which the scanner is in code with `holes` open. -/
def CodeFixes (p : Pattern) : (before : List Char) → (holes : List Nat) → (rest : List Char) →
    List (Match × List Char) → Prop
  | before, holes, rest, [] => p.SilentIn before holes rest []
  | before, holes, rest, (m, _) :: more =>
    ∃ skipped inner, rest = skipped ++ (m.text ++ m.after) ∧ m.before = skipped.reverse ++ before ∧
      ScanState.after ⟨.code, holes⟩ skipped = ⟨.code, inner⟩ ∧
      p.SilentIn before holes skipped (m.text ++ m.after) ∧
      CodeFixes p (m.text.reverse ++ m.before) inner m.after more

end Match

/-! ## The fixes of a rule -/

namespace Rule

variable {rule : Rule} {text : List Char}

/-- Such a rule applies a fix to each of its matches in code. -/
theorem OnCode.map_fst_fixes (h : rule.OnCode) (text : List Char) :
    (rule.fixes text).map (·.1) = rule.codeMatches text := by
  rw [fixes_eq, h.firstOnly, if_neg Bool.false_ne_true]
  have hall : ∀ ms : List Match, (∀ m ∈ ms, m.Of rule.pattern) →
      (rule.suggested ms).map (·.1) = ms := by
    intro ms hms
    induction ms with
    | nil => rfl
    | cons m more ih =>
      obtain ⟨hm, hmore⟩ := List.forall_mem_cons.mp hms
      obtain ⟨replacement, hsuggest, -⟩ := h.suggests m hm
      rw [suggested, List.filterMap_cons_some (by rw [hsuggest]; rfl), List.map_cons]
      exact congrArg _ (ih hmore)
  exact hall _ fun m hm => (of_mem_codeMatches hm).1

/-- What such a rule reads and writes is code. -/
theorem OnCode.codeWord_of_mem_fixes (h : rule.OnCode) {fix : Match × List Char}
    (hfix : fix ∈ rule.fixes text) : CodeWord fix.1.text ∧ CodeWord fix.2 := by
  obtain ⟨hof, hreplacement, hne⟩ := mem_fixes hfix
  obtain ⟨replacement, hsuggest, hword⟩ := h.suggests fix.1 hof
  rw [suggest?, hreplacement] at hsuggest
  obtain rfl := Option.some.inj (Option.filter_eq_some_iff.mp hsuggest).1
  exact ⟨h.reads fix.1 hof, hword⟩

/-- A match at a place in code lies, with its start, within one of the matches in code. -/
theorem OnCode.exists_codeMatch_over (h : rule.OnCode) {before rest : List Char} {m : Match}
    (htext : text = before.reverse ++ rest) (hm : rule.pattern.matchAt? ⟨before, rest, []⟩ = some m)
    (hcode : Span.covers (literalSpans text) (utf8Size before) = false) :
    ∃ other ∈ rule.codeMatches text, other.start ≤ utf8Size before ∧
      utf8Size before < other.stop := by
  obtain ⟨-, hbefore, hof⟩ := Pattern.matchAt?_eq_some hm
  have hstart : m.start = utf8Size before := by rw [Match.start, hbefore]
  by_cases hfree : ∀ other ∈ rule.pattern.allMatches text,
      other.start < m.start → other.stop ≤ m.start
  · have hmem := h.staysInLine.mem_allMatches hm htext.symm hfree
    have hcode' : m ∈ rule.codeMatches text := mem_codeMatches.mpr ⟨hmem, by rwa [hstart]⟩
    obtain ⟨c, more, hread⟩ := List.exists_cons_of_ne_nil (h.reads m hof).ne_nil
    have hsize := c.utf8Size_pos
    refine ⟨m, hcode', Nat.le_of_eq hstart, ?_⟩
    rw [Match.stop, hstart, hread, utf8Size_cons]
    omega
  · -- a match that reaches over the place is code because the place is
    push Not at hfree
    obtain ⟨other, hother, hlt, hreach⟩ := hfree
    obtain ⟨hofOther, hwhole⟩ := (rule.pattern.allMatches_inOrder text).of_mem hother
    have hplace : utf8Size other.before.reverse = other.start := utf8Size_reverse other.before
    have hcovers : Span.covers (literalSpans text) (utf8Size before)
        = Span.covers (literalSpans text) (utf8Size other.before.reverse) :=
      covers_eq_of_unmarked (h.readsUnmarked.unmarked hofOther) hwhole (by omega)
        (by rw [Match.stop] at hreach; omega)
    rw [hcode, hplace] at hcovers
    exact ⟨other, mem_codeMatches.mpr ⟨hother, hcovers.symm⟩, by omega, by omega⟩

/-- Between two fixes, and in front of the first one and behind the last one, there is no match in
code. -/
theorem OnCode.silentIn (h : rule.OnCode) {before part tail : List Char} {holes : List Nat}
    (htext : text = before.reverse ++ (part ++ tail))
    (hstate : ScanState.initial.after before.reverse = ⟨.code, holes⟩)
    (hborder : ∀ c ∈ before.head?, c ≠ '/')
    (hothers : ∀ m ∈ rule.codeMatches text, m.stop ≤ utf8Size before ∨
      utf8Size before + utf8Size part ≤ m.start) :
    rule.pattern.SilentIn before holes part tail := by
  intro front c back hpart hcode
  rw [Option.eq_none_iff_forall_ne_some]
  intro m hm
  obtain ⟨hread, -, hof⟩ := Pattern.matchAt?_eq_some hm
  have hplace : text = (front.reverse ++ before).reverse ++ (m.text ++ m.after) := by
    rw [← hread, htext, hpart]
    simp
  have hborder' : OpensNoComment before.reverse front :=
    OpensNoComment.of_last (by simpa using hborder)
  have hafter : ScanState.initial.after (front.reverse ++ before).reverse
      = ScanState.after ⟨.code, holes⟩ front := by
    rw [List.reverse_append, List.reverse_reverse]
    exact after_append_of_code hstate hborder'
  have huncovered := ((h.reads m hof).covers_eq_false_iff hplace).mpr (by rw [hafter]; exact hcode)
  rw [utf8Size_reverse] at huncovered
  rw [← hread] at hplace
  obtain ⟨other, hother, hlow, hhigh⟩ := h.exists_codeMatch_over hplace hm huncovered
  have hsize := c.utf8Size_pos
  have hpartSize := congrArg utf8Size hpart
  rw [utf8Size_append, utf8Size_cons] at hpartSize
  rw [utf8Size_append, utf8Size_reverse] at hlow hhigh
  have := hothers other hother
  omega

/-- The scanner stands in code in front of a match in code, and behind it where it stood before. -/
theorem OnCode.exists_state_around (h : rule.OnCode) {m : Match} (hm : m ∈ rule.codeMatches text) :
    ∃ holes, ScanState.initial.after m.before.reverse = ⟨.code, holes⟩ ∧
      ScanState.initial.after (m.text.reverse ++ m.before).reverse = ⟨.code, holes⟩ := by
  obtain ⟨hof, hwhole, hcode⟩ := of_mem_codeMatches hm
  have hword := h.reads m hof
  have hfront : (ScanState.initial.after m.before.reverse).kind = .code :=
    (hword.covers_eq_false_iff hwhole).mp (by rw [utf8Size_reverse]; exact hcode)
  refine ⟨_, ScanState.eq_of_kind_eq hfront, ?_⟩
  rw [List.reverse_append, List.reverse_reverse]
  refine (after_append_of_code (ScanState.eq_of_kind_eq hfront) ?_).trans
    (ScanState.after_of_forall hword.forall_mem)
  simpa using hword.opensNoComment m.before.reverse []

/-- Fixes for all matches in code from some place on stand in code one after another. -/
theorem OnCode.codeFixes_of_inOrder (h : rule.OnCode) {before rest : List Char} {holes : List Nat}
    {fixes : List (Match × List Char)} (htext : text = before.reverse ++ rest)
    (hstate : ScanState.initial.after before.reverse = ⟨.code, holes⟩)
    (hborder : ∀ c ∈ before.head?, c ≠ '/')
    (horder : Match.InOrder rule.pattern before rest (fixes.map (·.1)))
    (hmem : ∀ fix ∈ fixes, fix.1 ∈ rule.codeMatches text)
    (hall : ∀ m ∈ rule.codeMatches text, m.stop ≤ utf8Size before ∨ m ∈ fixes.map (·.1)) :
    Match.CodeFixes rule.pattern before holes rest fixes := by
  induction fixes generalizing before rest holes with
  | nil =>
    refine h.silentIn (by simpa using htext) hstate hborder fun m hm => ?_
    exact Or.inl ((hall m hm).resolve_right List.not_mem_nil)
  | cons fix more ih =>
    obtain ⟨m, replacement⟩ := fix
    replace horder : Match.InOrder rule.pattern before rest (m :: more.map (·.1)) := horder
    obtain ⟨skipped, rfl, hbefore, hof, hmore⟩ := horder
    obtain ⟨hm, hmem⟩ := List.forall_mem_cons.mp hmem
    replace hm : m ∈ rule.codeMatches text := hm
    have hword := h.reads m hof
    obtain ⟨-, hwhole, -⟩ := of_mem_codeMatches hm
    have hstart : m.start = utf8Size skipped + utf8Size before := by
      rw [Match.start, hbefore, utf8Size_append, utf8Size_reverse]
    have hstop : utf8Size (m.text.reverse ++ m.before) = m.stop := by
      rw [utf8Size_append, utf8Size_reverse, Nat.add_comm]
      rfl
    obtain ⟨inner, hfront, hbehind⟩ := h.exists_state_around hm
    have hplace : ScanState.initial.after m.before.reverse
        = ScanState.after ⟨.code, holes⟩ skipped := by
      rw [hbefore, List.reverse_append, List.reverse_reverse]
      exact after_append_of_code hstate (OpensNoComment.of_last (by simpa using hborder))
    refine ⟨skipped, inner, rfl, hbefore, hplace.symm.trans hfront, ?_, ?_⟩
    · refine h.silentIn htext hstate hborder fun other hother => (hall other hother).imp_right ?_
      intro hlater
      rcases List.mem_cons.mp hlater with rfl | hlater
      · omega
      · have hle := hmore.le_start hlater
        have : m.start ≤ m.stop := Nat.le_add_right _ _
        omega
    · refine ih ?_ hbehind ?_ hmore hmem fun other hother => ?_
      · rw [List.reverse_append, List.reverse_reverse, List.append_assoc]
        exact hwhole
      · intro c hc
        rw [List.head?_append_of_ne_nil _ (by simpa using hword.ne_nil), List.head?_reverse] at hc
        exact hword.getLast?_ne c hc
      · rcases hall other hother with hbelow | hlater
        · have : m.start ≤ m.stop := Nat.le_add_right _ _
          exact Or.inl (by omega)
        · rcases List.mem_cons.mp hlater with rfl | hlater
          · exact Or.inl (Nat.le_of_eq hstop.symm)
          · exact Or.inr hlater

/-- The fixes of such a rule stand in code one after another, and there is no match in code between
them. -/
theorem OnCode.codeFixes (h : rule.OnCode) (text : List Char) :
    Match.CodeFixes rule.pattern [] [] text (rule.fixes text) := by
  have htext : text = [].reverse ++ text := rfl
  refine h.codeFixes_of_inOrder htext rfl (by simp) (rule.fixes_inOrder text) ?_ ?_
  · intro fix hfix
    rw [← h.map_fst_fixes text]
    exact List.mem_map_of_mem hfix
  · intro m hm
    rw [h.map_fst_fixes text]
    exact Or.inr hm

end Rule

/-! ## The rewritten text -/

namespace Match

variable {p : Pattern} {before rest : List Char} {holes : List Nat}
  {fixes : List (Match × List Char)}

/-- Code in place of code leaves the literals and comments as they are. -/
theorem literalTextsFrom_replaceAll (h : CodeFixes p before holes rest fixes)
    (hwords : ∀ fix ∈ fixes, CodeWord fix.1.text ∧ CodeWord fix.2) :
    literalTextsFrom holes (replaceAll rest fixes) = literalTextsFrom holes rest := by
  induction fixes generalizing before rest holes with
  | nil => rfl
  | cons fix more ih =>
    obtain ⟨m, replacement⟩ := fix
    obtain ⟨skipped, inner, rfl, -, hskipped, -, hmore⟩ := h
    obtain ⟨⟨hread, hwritten⟩, hwords⟩ := List.forall_mem_cons.mp hwords
    rw [replaceAll_cons, literalTextsFrom_append hskipped (hwritten.opensNoComment _ _),
      literalTextsFrom_append hskipped (hread.opensNoComment _ _),
      literalTextsFrom_word hwritten.forall_mem, literalTextsFrom_word hread.forall_mem,
      ih hmore hwords]

/-- The second text is the first one up to the first fix in it, and behind the fix it may be
anything; without a fix it is the same. -/
def GoesOnAs (fixes : List (Match × List Char)) (rest result : List Char) : Prop :=
  result = rest ∨ ∃ fix ∈ fixes, ∃ skipped more,
    rest = skipped ++ (fix.1.text ++ fix.1.after) ∧ result = skipped ++ (fix.2 ++ more)

/-- Both texts end with the same character, or one with a replacement and the other one with the
match for it. -/
def EndAlike (fixes : List (Match × List Char)) (result text : List Char) : Prop :=
  result.getLast? = text.getLast? ∨
    ∃ fix ∈ fixes, result.getLast? = fix.2.getLast? ∧ text.getLast? = fix.1.text.getLast?

/-- Where the character `c`, which stands between `front` and `back` in the rewritten text, comes
from. In front of the text that is rewritten stands `before`, nearest character first. -/
inductive Origin (p : Pattern) (fixes : List (Match × List Char)) (before rest front : List Char)
    (c : Char) (back : List Char) : Prop
  /-- It stood in the text, where the pattern did not match. -/
  | kept (front' back' : List Char) (rest_eq : rest = front' ++ c :: back')
      (silent : p.matchAt? ⟨front'.reverse ++ before, c :: back', []⟩ = none)
      (behind : EndAlike fixes front front')
      (goesOn : GoesOnAs fixes back' back)
  /-- It is part of a replacement. -/
  | written (fix : Match × List Char) (mem : fix ∈ fixes) (early late more : List Char)
      (text_eq : fix.2 = early ++ c :: late) (back_eq : back = late ++ more)
      (goesOn : GoesOnAs fixes fix.1.after more)

theorem GoesOnAs.mono {some all : List (Match × List Char)} {result : List Char}
    (hsub : ∀ fix ∈ some, fix ∈ all) (h : GoesOnAs some rest result) : GoesOnAs all rest result :=
  h.imp_right fun ⟨fix, hfix, hsplit⟩ => ⟨fix, hsub fix hfix, hsplit⟩

theorem GoesOnAs.cons {result : List Char} (c : Char) (h : GoesOnAs fixes rest result) :
    GoesOnAs fixes (c :: rest) (c :: result) := by
  rcases h with rfl | ⟨fix, hfix, skipped, more, rfl, rfl⟩
  · exact Or.inl rfl
  · exact Or.inr ⟨fix, hfix, c :: skipped, more, rfl, rfl⟩

theorem EndAlike.mono {some all : List (Match × List Char)} {result text : List Char}
    (hsub : ∀ fix ∈ some, fix ∈ all) (h : EndAlike some result text) : EndAlike all result text :=
  h.imp_right fun ⟨fix, hfix, hlast⟩ => ⟨fix, hsub fix hfix, hlast⟩

/-- Texts that end alike do so behind a replacement and the match for it. -/
theorem EndAlike.append {fix : Match × List Char} (hfix : fix ∈ fixes)
    (hwords : ∀ fix ∈ fixes, CodeWord fix.1.text ∧ CodeWord fix.2) {result text : List Char}
    (h : EndAlike fixes result text) (skipped : List Char) :
    EndAlike fixes (skipped ++ (fix.2 ++ result)) (skipped ++ (fix.1.text ++ text)) := by
  obtain ⟨hread, hwritten⟩ := hwords fix hfix
  have hempty : result = [] ↔ text = [] := by
    rw [← List.getLast?_eq_none_iff, ← List.getLast?_eq_none_iff]
    rcases h with hsame | ⟨other, hother, hresult, htext⟩
    · rw [hsame]
    · obtain ⟨hread, hwritten⟩ := hwords other hother
      simp [hresult, htext, hread.ne_nil, hwritten.ne_nil]
  by_cases hnil : text = []
  · rw [hempty.mpr hnil, hnil, List.append_nil, List.append_nil]
    exact Or.inr ⟨fix, hfix, List.getLast?_append_of_ne_nil _ hwritten.ne_nil,
      List.getLast?_append_of_ne_nil _ hread.ne_nil⟩
  · have hresult : result ≠ [] := hempty.not.mpr hnil
    rw [EndAlike, ← List.append_assoc, ← List.append_assoc,
      List.getLast?_append_of_ne_nil _ hresult, List.getLast?_append_of_ne_nil _ hnil]
    exact h

theorem CodeFixes.goesOnAs (h : CodeFixes p before holes rest fixes) :
    GoesOnAs fixes rest (replaceAll rest fixes) := by
  cases fixes with
  | nil => exact Or.inl rfl
  | cons fix more =>
    obtain ⟨m, replacement⟩ := fix
    obtain ⟨skipped, inner, rfl, -⟩ := h
    exact Or.inr ⟨_, List.mem_cons_self, skipped, _, rfl, replaceAll_cons m replacement more⟩

/-- A character of the rewritten text in front of which the scanner stands in code has been there
before, without a match at its place, or stands in a replacement. -/
theorem CodeFixes.origin (h : CodeFixes p before holes rest fixes)
    (hwords : ∀ fix ∈ fixes, CodeWord fix.1.text ∧ CodeWord fix.2)
    {front back : List Char} {c : Char} (hresult : replaceAll rest fixes = front ++ c :: back)
    (hcode : (ScanState.after ⟨.code, holes⟩ front).kind = .code) :
    Origin p fixes before rest front c back := by
  induction fixes generalizing before rest holes front with
  | nil =>
    have hsilent := h front c back hresult hcode
    rw [List.append_nil] at hsilent
    exact .kept front back hresult hsilent (Or.inl rfl) (Or.inl rfl)
  | cons fix more ih =>
    obtain ⟨m, replacement⟩ := fix
    have hfirst : (m, replacement) ∈ (m, replacement) :: more := List.mem_cons_self
    have hmono : ∀ fix ∈ more, fix ∈ (m, replacement) :: more :=
      fun fix hfix => List.mem_cons_of_mem _ hfix
    obtain ⟨skipped, inner, rfl, hbefore, hskipped, hsilent, hmore⟩ := h
    obtain ⟨⟨hread, hwritten⟩, hlater⟩ := List.forall_mem_cons.mp hwords
    rw [replaceAll_cons] at hresult
    rcases split_of_append_eq_append_cons hresult with ⟨late, rfl, rfl⟩ | ⟨behind, rfl, hrest⟩
    · -- the character stands in front of the first fix
      refine .kept front (late ++ (m.text ++ m.after)) (by simp)
        (hsilent front c late rfl hcode) (Or.inl rfl) ?_
      exact Or.inr ⟨_, hfirst, late, _, rfl, rfl⟩
    rcases split_of_append_eq_append_cons hrest with ⟨late, htext, rfl⟩ | ⟨front, rfl, hafter⟩
    · exact .written (m, replacement) hfirst behind late _ htext rfl
        (hmore.goesOnAs.mono hmono)
    · rw [after_append_of_code hskipped (hwritten.opensNoComment _ _),
        hwritten.after_append] at hcode
      -- what comes behind the first fix is looked for in the text behind its match
      cases ih hmore hlater hafter hcode with
      | written fix hfix early late more' htext hback hgoesOn =>
        exact .written fix (hmono fix hfix) early late more' htext hback (hgoesOn.mono hmono)
      | kept front' back' hafter' hsilent' hbehind hgoesOn =>
        refine .kept (skipped ++ (m.text ++ front')) back' (by rw [hafter']; simp) ?_ ?_
          (hgoesOn.mono hmono)
        · have hplace : (skipped ++ (m.text ++ front')).reverse ++ before
              = front'.reverse ++ (m.text.reverse ++ m.before) := by
            rw [hbefore]
            simp
          rw [hplace]
          exact hsilent'
        · exact (hbehind.mono hmono).append hfirst hwords skipped

end Match

namespace Rule

variable {rule : Rule} {text result : List Char}

/-- A rewrite by such a rule leaves the literals and comments as they are. -/
theorem OnCode.literalTexts_eq (h : rule.OnCode) (hchanged : rule.rewrite text = .changed result) :
    literalTexts result = literalTexts text := by
  rw [(rewrite_changed hchanged).2]
  exact Match.literalTextsFrom_replaceAll (h.codeFixes text) fun _ => h.codeWord_of_mem_fixes

/-- A character of code in a text rewritten by such a rule has been code before, without a match at
its place, or stands in a replacement. -/
theorem OnCode.origin (h : rule.OnCode) (hchanged : rule.rewrite text = .changed result)
    {front back : List Char} {c : Char} (hresult : result = front ++ c :: back)
    (hcode : (ScanState.initial.after front).kind = .code) :
    Match.Origin rule.pattern (rule.fixes text) [] text front c back := by
  refine (h.codeFixes text).origin (fun _ => h.codeWord_of_mem_fixes) ?_ hcode
  rw [← (rewrite_changed hchanged).2, hresult]

/-- Where such a rule changes a text, the pattern matches at a place in front of which the scanner
stands in code. -/
theorem OnCode.exists_match_of_changed (h : rule.OnCode)
    (hchanged : rule.rewrite text = .changed result) :
    ∃ m, rule.pattern.matchAt? ⟨m.before, m.text ++ m.after, []⟩ = some m ∧
      text = m.before.reverse ++ (m.text ++ m.after) ∧
      (ScanState.initial.after m.before.reverse).kind = .code := by
  obtain ⟨m, hm⟩ := exists_mem_codeMatches_of_changed hchanged
  obtain ⟨hof, htext, hcode⟩ := of_mem_codeMatches hm
  refine ⟨m, Pattern.matchAt?_of_mem_allMatches (mem_codeMatches.mp hm).1, htext, ?_⟩
  exact ((h.reads m hof).covers_eq_false_iff htext).mp (by rw [utf8Size_reverse]; exact hcode)

/-- The match of a fix is the one at its place, and the replacement is what the rule suggests. -/
theorem OnCode.of_mem_fixes (h : rule.OnCode) {fix : Match × List Char}
    (hfix : fix ∈ rule.fixes text) :
    rule.pattern.matchAt? ⟨fix.1.before, fix.1.text ++ fix.1.after, []⟩ = some fix.1 ∧
      fix.1.Of rule.pattern ∧ rule.fixer.bind (· fix.1) = some fix.2 := by
  obtain ⟨hof, hreplacement, -⟩ := mem_fixes hfix
  have hmem : fix.1 ∈ rule.codeMatches text := by
    rw [← h.map_fst_fixes text]
    exact List.mem_map_of_mem hfix
  exact ⟨Pattern.matchAt?_of_mem_allMatches (mem_codeMatches.mp hmem).1, hof, hreplacement⟩

end Rule

end SourceRepair
