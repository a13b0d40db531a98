import SourceRepair.Proofs.Literal.SameCode
import SourceRepair.Proofs.Pattern.Selection
import SourceRepair.Rule.Basic

/-!
# Matches in code and the text of literals

A rule keeps the matches of its pattern that start in code, but the search for them goes through
the whole text. So what is written inside a literal or comment can matter for a match in code in two
ways: the match reads it, or it belongs to another match that reaches over the place. For two texts
with the same code, `Rule.CarriesOver` asks about the matches for which this can make a difference,
and nothing about those that read only code or only literals: with it, the rule has matches in code
at the same offsets of both texts (`Rule.exists_start_eq_iff`).

That a match that starts in front of a line cannot reach into the line is what lets the comparison
begin at the start of any line.
-/

namespace SourceRepair

open Text LiteralSpans

/-! ## The places of matches -/

namespace Match

/-- Some of what the match reads lies in a literal or comment. -/
def ReadsLiteral (spans : List Span) (m : Match) : Prop :=
  ∃ offset, m.start ≤ offset ∧ offset < m.stop ∧ Span.covers spans offset = true

/-- Some of what the match reads is code. -/
def ReadsCode (spans : List Span) (m : Match) : Prop :=
  ∃ offset, m.start ≤ offset ∧ offset < m.stop ∧ Span.covers spans offset = false

end Match

/-- Tried at the offset `start` of a text, the pattern matches up to `stop`. -/
def Pattern.MatchesFromTo (p : Pattern) (text : List Char) (start stop : Nat) : Prop :=
  ∃ before rest m, before.reverse ++ rest = text ∧ p.matchAt? ⟨before, rest, []⟩ = some m ∧
    m.start = start ∧ m.stop = stop

/-- A line starts at the offset: nothing stands in front of it, or a line feed. -/
def Text.LineStartsAt (text : List Char) (offset : Nat) : Prop :=
  ∃ front back, text = front ++ back ∧ utf8Size front = offset ∧ ∀ c ∈ front.getLast?, c = '\n'

theorem Text.lineStartsAt_zero (text : List Char) : LineStartsAt text 0 :=
  ⟨[], text, rfl, rfl, by simp⟩

/-- A match cannot reach over a character that the pattern does not read. -/
theorem Pattern.stop_le_of_onlyReads_ne {p : Pattern} {c : Char} (hp : p.OnlyReads (· ≠ c))
    {front back text : List Char} (htext : text = front ++ back)
    (hlast : ∀ d ∈ front.getLast?, d = c) {m : Match} (hm : m ∈ p.allMatches text)
    (hlt : m.start < utf8Size front) :
    m.stop ≤ utf8Size front := by
  obtain ⟨hof, hwhole⟩ := (p.allMatches_inOrder text).of_mem hm
  have hcut : m.before.reverse ++ (m.text ++ m.after) = front ++ back := hwhole.symm.trans htext
  have hstart : utf8Size m.before.reverse = m.start := utf8Size_reverse m.before
  obtain ⟨between, rfl, hrest⟩ := exists_of_append_eq_append hcut (by omega)
  rw [utf8Size_append, hstart] at hlt ⊢
  by_contra hreach
  rw [Match.stop] at hreach
  obtain ⟨more, hmore, -⟩ := exists_of_append_eq_append hrest.symm (by omega)
  -- the last character of `front` would be part of the match
  obtain ⟨more', d, rfl⟩ := between.eq_nil_or_concat'.resolve_left (by
    rintro rfl
    rw [utf8Size_nil] at hlt
    omega)
  have hd : d = c := hlast d (by rw [← List.append_assoc, List.getLast?_concat]; rfl)
  exact Pattern.Reads.forall_mem hof hp d (by rw [hmore]; simp) hd

/-- A match without line feeds that starts in front of a line ends there. -/
theorem Pattern.stop_le_of_lineStartsAt {p : Pattern} (hp : p.OnlyReads (· ≠ '\n'))
    {text : List Char} {m : Match} (hm : m ∈ p.allMatches text) {offset : Nat}
    (hline : LineStartsAt text offset) (hlt : m.start < offset) : m.stop ≤ offset := by
  obtain ⟨front, back, htext, rfl, hlast⟩ := hline
  exact stop_le_of_onlyReads_ne hp htext hlast hm hlt

/-- What the pattern reads neither begins with what ends a literal nor ends with what opens one. -/
structure Pattern.CodeEdged (p : Pattern) : Prop where
  first : ∀ c ∈ '$' :: exits, p.FirstReads (· ≠ c)
  last : ∀ c ∈ entrances, p.LastReads (· ≠ c)

/-- The pattern reads no mark of a border between code and literals, and opens no template hole. -/
structure Pattern.ReadsUnmarked (p : Pattern) : Prop where
  marks : ∀ c ∈ '/' :: (entrances ++ exits), p.OnlyReads (· ≠ c)
  hole : p.OnlyReads (· ≠ '$') ∨ p.OnlyReads (· ≠ '{')
  last : p.LastReads (· ≠ '$')

theorem Pattern.codeEdged_iff {p : Pattern} : p.CodeEdged ↔
    (('$' :: exits).all fun c => decide (p.FirstReads (· ≠ c))) = true ∧
      (entrances.all fun c => decide (p.LastReads (· ≠ c))) = true := by
  simp only [List.all_eq_true, decide_eq_true_eq]
  exact ⟨fun ⟨h₁, h₂⟩ => ⟨h₁, h₂⟩, fun ⟨h₁, h₂⟩ => ⟨h₁, h₂⟩⟩

instance (p : Pattern) : Decidable p.CodeEdged :=
  decidable_of_iff _ Pattern.codeEdged_iff.symm

theorem Pattern.readsUnmarked_iff {p : Pattern} : p.ReadsUnmarked ↔
    (('/' :: (entrances ++ exits)).all fun c => decide (p.OnlyReads (· ≠ c))) = true ∧
      (p.OnlyReads (· ≠ '$') ∨ p.OnlyReads (· ≠ '{')) ∧ p.LastReads (· ≠ '$') := by
  simp only [List.all_eq_true, decide_eq_true_eq]
  exact ⟨fun ⟨h₁, h₂, h₃⟩ => ⟨h₁, h₂, h₃⟩, fun ⟨h₁, h₂, h₃⟩ => ⟨h₁, h₂, h₃⟩⟩

instance (p : Pattern) : Decidable p.ReadsUnmarked :=
  decidable_of_iff _ Pattern.readsUnmarked_iff.symm

/-- A match of such a pattern holds no marks. -/
theorem Pattern.ReadsUnmarked.unmarked {p : Pattern} (hp : p.ReadsUnmarked) {m : Match}
    (hm : m.Of p) : Unmarked m.text where
  forall_mem c hc := by
    have hno : c ∉ '/' :: (entrances ++ exits) := fun hmark =>
      Pattern.Reads.forall_mem hm (hp.marks c hmark) c hc rfl
    rw [List.mem_cons, List.mem_append, not_or, not_or] at hno
    exact ⟨hno.2.1, hno.2.2, hno.1⟩
  hole := by
    rcases hp.hole with hdollar | hbrace
    · exact Or.inl fun hc => Pattern.Reads.forall_mem hm hdollar '$' hc rfl
    · exact Or.inr fun hc => Pattern.Reads.forall_mem hm hbrace '{' hc rfl
  last hlast := Pattern.Reads.forall_last hm hp.last _ hlast rfl

namespace Rule

variable {rule : Rule} {text other : List Char} {low high : Nat} {m : Match}

theorem mem_codeMatches : m ∈ rule.codeMatches text ↔
    m ∈ rule.pattern.allMatches text ∧ Span.covers (literalSpans text) m.start = false := by
  rw [codeMatches, List.mem_filter, Bool.not_eq_true']

/-- What the matches of a rule that start between the offsets `low` and `high` of a text have to do
with another text of the same code: where a match in code reads into a literal or comment, the
pattern matches the other text as far, and a match that starts in a literal or comment and reaches
into code is found in the other text too. -/
structure CarriesOver (rule : Rule) (low high : Nat) (text other : List Char) : Prop where
  reading : ∀ m ∈ rule.codeMatches text, low ≤ m.start → m.start < high →
    m.ReadsLiteral (literalSpans text) → rule.pattern.MatchesFromTo other m.start m.stop
  reaching : ∀ m ∈ rule.pattern.allMatches text, low ≤ m.start → m.start < high →
    Span.covers (literalSpans text) m.start = true → m.ReadsCode (literalSpans text) →
    ∃ m' ∈ rule.pattern.allMatches other, m'.start = m.start ∧ m'.stop = m.stop

/-- The matches of a pattern without marks are all code or all literal, so nothing is asked about
them. -/
theorem carriesOver_of_readsUnmarked (hp : rule.pattern.ReadsUnmarked) (low high : Nat)
    (text other : List Char) : rule.CarriesOver low high text other := by
  have hall : ∀ m ∈ rule.pattern.allMatches text, ∀ offset, m.start ≤ offset → offset < m.stop →
      Span.covers (literalSpans text) offset = Span.covers (literalSpans text) m.start := by
    intro m hm offset hlow hhigh
    obtain ⟨hof, hwhole⟩ := (rule.pattern.allMatches_inOrder text).of_mem hm
    have hstart : utf8Size m.before.reverse = m.start := utf8Size_reverse m.before
    rw [Match.stop, ← hstart] at hhigh
    rw [← hstart] at hlow ⊢
    exact covers_eq_of_unmarked (hp.unmarked hof) hwhole hlow hhigh
  constructor
  · rintro m hm - - ⟨offset, hlow, hhigh, hcovers⟩
    rw [hall m (mem_codeMatches.mp hm).1 offset hlow hhigh, (mem_codeMatches.mp hm).2] at hcovers
    exact absurd hcovers Bool.false_ne_true
  · rintro m hm - - hliteral ⟨offset, hlow, hhigh, hcovers⟩
    rw [hall m hm offset hlow hhigh, hliteral] at hcovers
    exact absurd hcovers.symm Bool.false_ne_true

/-- Nothing else is asked where all matches start in code and are matches of the other text. -/
theorem carriesOver_of_forall (h : ∀ m ∈ rule.pattern.allMatches text,
    Span.covers (literalSpans text) m.start = false ∧
      rule.pattern.MatchesFromTo other m.start m.stop) (low high : Nat) :
    rule.CarriesOver low high text other := by
  constructor
  · intro m hm _ _ _
    exact (h m (mem_codeMatches.mp hm).1).2
  · intro m hm _ _ hliteral
    rw [(h m hm).1] at hliteral
    exact absurd hliteral Bool.false_ne_true

/-! ## Matches that read only code -/

/-- A match that reads only code stands in the other text, and with the same characters next to it.
-/
theorem exists_place_of_not_readsLiteral (h : SameCode text other)
    (hp : rule.pattern.StaysInLine) (hedged : rule.pattern.CodeEdged)
    (hm : m ∈ rule.pattern.allMatches text) (hcode : ¬m.ReadsLiteral (literalSpans text)) :
    ∃ before after, other = before.reverse ++ (m.text ++ after) ∧ utf8Size before = m.start ∧
      SurroundsAlike m.text m.before m.after before after := by
  obtain ⟨hof, hwhole⟩ := (rule.pattern.allMatches_inOrder text).of_mem hm
  obtain ⟨before, after, hother, hplace, hbefore, hafter⟩ :=
    h.exists_word_surrounded (Pattern.Reads.ne_nil hof hp.consumes) hwhole
      (fun offset hlow hhigh => by
        rw [← Bool.not_eq_true]
        exact fun hcovers => hcode ⟨offset, hlow, hhigh, hcovers⟩)
      (fun c hc => by
        have hno : c ∉ '$' :: exits := fun hmark =>
          Pattern.Reads.forall_head hof (hedged.first c hmark) c hc rfl
        rw [List.mem_cons, not_or] at hno
        exact ⟨hno.2, hno.1⟩)
      fun c hc hmark => Pattern.Reads.forall_last hof (hedged.last c hmark) c hc rfl
  exact ⟨before, after, hother, hplace, SurroundsAlike.of_head? m.text hbefore hafter⟩

/-- Where a match in code starts, the pattern matches the other text too. -/
theorem exists_matchAt?_of_carriesOver (h : SameCode text other)
    (hp : rule.pattern.StaysInLine) (hedged : rule.pattern.CodeEdged)
    (hthere : rule.CarriesOver low high text other) (hm : m ∈ rule.codeMatches text)
    (hlow : low ≤ m.start) (hhigh : m.start < high) :
    ∃ before rest m', before.reverse ++ rest = other ∧
      rule.pattern.matchAt? ⟨before, rest, []⟩ = some m' ∧ m'.start = m.start := by
  by_cases hreads : m.ReadsLiteral (literalSpans text)
  · obtain ⟨before, rest, m', hother, hmatch, hstart, -⟩ :=
      hthere.reading m hm hlow hhigh hreads
    exact ⟨before, rest, m', hother, hmatch, hstart⟩
  · have hall := (mem_codeMatches.mp hm).1
    obtain ⟨before, after, hother, hplace, halike⟩ :=
      exists_place_of_not_readsLiteral h hp hedged hall hreads
    obtain ⟨m', hm'⟩ := Pattern.exists_matchAt?_of_alike hp.anchored halike
      (Pattern.matchAt?_of_mem_allMatches hall) (Nat.le_refl _)
    have hstart : m'.start = m.start := by
      obtain ⟨-, hbefore, -⟩ := Pattern.matchAt?_eq_some hm'
      rw [Match.start, hbefore, hplace]
    exact ⟨before, m.text ++ after, m', hother.symm, hm', hstart⟩

/-- Of two matches in code at one offset of both texts, the one in the other text reaches as far. -/
theorem stop_le_of_carriesOver (h : SameCode text other)
    (hp : rule.pattern.StaysInLine) (hedged : rule.pattern.CodeEdged)
    (hthere : rule.CarriesOver low high text other) (hm : m ∈ rule.codeMatches text)
    (hlow : low ≤ m.start) (hhigh : m.start < high) {m' : Match}
    (hm' : m' ∈ rule.codeMatches other) (hstart : m'.start = m.start) : m.stop ≤ m'.stop := by
  have hall := (mem_codeMatches.mp hm).1
  have hall' := (mem_codeMatches.mp hm').1
  by_cases hreads : m.ReadsLiteral (literalSpans text)
  · obtain ⟨before, rest, n, hother, hmatch, hplace, hstop⟩ :=
      hthere.reading m hm hlow hhigh hreads
    obtain ⟨-, hbefore, -⟩ := Pattern.matchAt?_eq_some hmatch
    have hn : n = m' := Pattern.eq_of_mem_allMatches_of_matchAt? hall' hmatch hother (by
      rw [hstart, ← hplace, Match.start, hbefore])
    rw [← hn, hstop]
  · obtain ⟨before, after, hother, hplace, halike⟩ :=
      exists_place_of_not_readsLiteral h hp hedged hall hreads
    have hmine := Pattern.matchAt?_of_mem_allMatches hall
    obtain ⟨n, hn⟩ := Pattern.exists_matchAt?_of_alike hp.anchored halike hmine (Nat.le_refl _)
    obtain rfl : n = m' := Pattern.eq_of_mem_allMatches_of_matchAt? hall' hn hother.symm (by
      rw [hplace, hstart])
    by_contra hshorter
    -- a shorter match would lie in the stretch that both texts have, and be preferred in both
    obtain ⟨hrest, -, -⟩ := Pattern.matchAt?_eq_some hn
    replace hrest : m.text ++ after = n.text ++ n.after := hrest
    obtain ⟨between, -, hafter⟩ := exists_of_append_eq_append hrest.symm (by
      rw [Match.stop, Match.stop, hstart] at hshorter
      omega)
    have hin : after.length ≤ n.after.length := by
      rw [hafter, List.length_append]
      exact Nat.le_add_left _ _
    have htext := Pattern.text_eq_of_alike hp.anchored halike hmine (Nat.le_refl _) hn hin
    rw [Match.stop, Match.stop, htext, hstart] at hshorter
    exact hshorter (Nat.le_refl _)

/-! ## The same places in both texts -/

/-- Where a match in code starts, one starts in the other text, if it is so for those in front of
it the other way round. -/
theorem exists_start_eq_of_forall_lt (h : SameCode text other)
    (hp : rule.pattern.StaysInLine) (hedged : rule.pattern.CodeEdged)
    (hline : LineStartsAt other low) (hthere : rule.CarriesOver low high text other)
    (hback : rule.CarriesOver low high other text) (hm : m ∈ rule.codeMatches text)
    (hlow : low ≤ m.start) (hhigh : m.start < high)
    (ih : ∀ n ∈ rule.codeMatches other, low ≤ n.start → n.start < m.start →
      ∃ n' ∈ rule.codeMatches text, n'.start = n.start) :
    ∃ m' ∈ rule.codeMatches other, m'.start = m.start := by
  obtain ⟨hall, hcode⟩ := mem_codeMatches.mp hm
  obtain ⟨before, rest, m', hother, hmatch, hstart⟩ :=
    exists_matchAt?_of_carriesOver h hp hedged hthere hm hlow hhigh
  refine ⟨m', mem_codeMatches.mpr ⟨hp.mem_allMatches hmatch hother fun n hn hlt => ?_, ?_⟩, hstart⟩
  · rw [hstart] at hlt ⊢
    by_contra hreach
    -- the match `n` in front of the place reaches over it, so one of the first text does as well
    have hnLow : low ≤ n.start := by
      by_contra hfront
      have := Pattern.stop_le_of_lineStartsAt hp.onlyReads hn hline (by omega)
      omega
    cases hcovers : Span.covers (literalSpans other) n.start with
    | true =>
      obtain ⟨n', hn', hnStart, hnStop⟩ := hback.reaching n hn hnLow (by omega) hcovers
        ⟨m.start, by omega, by omega, by rw [h.spans_eq, hcode]⟩
      have := Pattern.stop_le_start_of_mem_allMatches hn' hall (by omega)
      omega
    | false =>
      have hnCode := mem_codeMatches.mpr ⟨hn, hcovers⟩
      obtain ⟨n', hn', hnStart⟩ := ih n hnCode hnLow hlt
      have hstop := stop_le_of_carriesOver h.symm hp hedged hback hnCode hnLow (by omega) hn'
        hnStart
      have := Pattern.stop_le_start_of_mem_allMatches (mem_codeMatches.mp hn').1 hall (by omega)
      omega
  · rw [hstart, h.spans_eq, hcode]

/-- The offset lies behind the start of a line of both texts, and the matches of the rule from there
up to the offset carry over from each text to the other one. -/
def CarriesOverAt (rule : Rule) (offset : Nat) (text other : List Char) : Prop :=
  ∃ low high, low ≤ offset ∧ offset < high ∧ LineStartsAt text low ∧ LineStartsAt other low ∧
    rule.CarriesOver low high text other ∧ rule.CarriesOver low high other text

theorem carriesOverAt_of_readsUnmarked (hp : rule.pattern.ReadsUnmarked) (offset : Nat)
    (text other : List Char) : rule.CarriesOverAt offset text other :=
  ⟨0, offset + 1, Nat.zero_le offset, Nat.lt_succ_self offset, lineStartsAt_zero text,
    lineStartsAt_zero other, carriesOver_of_readsUnmarked hp _ _ text other,
    carriesOver_of_readsUnmarked hp _ _ other text⟩

/-- Where its matches carry over, a rule has a match in code in both texts or in none. -/
theorem exists_start_eq_iff (h : SameCode text other)
    (hp : rule.pattern.StaysInLine) (hedged : rule.pattern.CodeEdged) {offset : Nat}
    (hcarries : rule.CarriesOverAt offset text other) :
    (∃ m ∈ rule.codeMatches text, m.start = offset) ↔
      ∃ m ∈ rule.codeMatches other, m.start = offset := by
  obtain ⟨low, high, hlow, hhigh, hline, hline', hthere, hback⟩ := hcarries
  induction offset using Nat.strongRecOn with
  | _ offset ih =>
    constructor
    · rintro ⟨m, hm, rfl⟩
      exact exists_start_eq_of_forall_lt h hp hedged hline' hthere hback hm hlow hhigh
        fun n hn hnLow hlt => (ih n.start hlt hnLow (by omega)).mpr ⟨n, hn, rfl⟩
    · rintro ⟨m, hm, rfl⟩
      exact exists_start_eq_of_forall_lt h.symm hp hedged hline hback hthere hm hlow hhigh
        fun n hn hnLow hlt => (ih n.start hlt hnLow (by omega)).mp ⟨n, hn, rfl⟩

end Rule

end SourceRepair
