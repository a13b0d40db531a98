import SourceRepair.Proofs.Literal.Steps
import SourceRepair.Proofs.Text.Cutting

/-!
# Which offsets the spans cover

The spans of a text stand one behind the other, so an offset is covered if it lies in one of them
(`covers_eq_false_iff`). Whether it does is decided by the step of the scanner that reads it:
`covers_token` says so for the first step. By induction over the steps (`scan_induction`) every
character is read by one of them (`exists_stepReading`). So all bytes of a character are covered
alike (`covers_char`), and behind a character that is neither covered nor the start of something the
scanner stands in code (`exists_code_behind`). From there it stays in code as long as it reads
nothing but code (`ReadsCode`).
-/

namespace SourceRepair

open Text

/-! ## Lists of spans -/

namespace Span

variable {front back : List Span} {span : Span} {offset : Nat}

/-- Spans that have ended do not decide. -/
theorem covers_append_of_stop_le (h : ∀ span ∈ front, span.stop ≤ offset) :
    covers (front ++ back) offset = covers back offset := by
  have hnone : front.find? (fun span => offset < span.stop) = none := by
    rw [List.find?_eq_none]
    intro span hspan
    simpa using h span hspan
  rw [covers, covers, List.find?_append, hnone, Option.none_or]

/-- A span that ends behind an offset decides. -/
theorem covers_cons_of_lt_stop (h : offset < span.stop) :
    covers (span :: back) offset = decide (span.start ≤ offset) := by
  rw [covers, List.find?_cons_of_pos (by simpa using h)]

/-- Spans that have not begun cover nothing. -/
theorem covers_eq_false_of_lt_start (h : ∀ span ∈ back, offset < span.start) :
    covers back offset = false := by
  rw [covers]
  cases hfind : back.find? (fun span => offset < span.stop) with
  | none => rfl
  | some span =>
    have hlt := h span (List.mem_of_find?_eq_some hfind)
    simpa using hlt

/-- Spans that have not begun do not decide. -/
theorem covers_append_of_lt_start (h : ∀ span ∈ back, offset < span.start) :
    covers (front ++ back) offset = covers front offset := by
  have hback := covers_eq_false_of_lt_start h
  rw [covers] at hback ⊢
  rw [covers, List.find?_append]
  cases front.find? (fun span => offset < span.stop) with
  | none => exact hback
  | some span => rfl

/-- Where each span ends before the next one starts, an offset is covered if it lies in one of
them. -/
theorem covers_iff_of_pairwise {spans : List Span}
    (h : spans.Pairwise fun a b => a.stop ≤ b.start) :
    covers spans offset = true ↔ ∃ span ∈ spans, span.start ≤ offset ∧ offset < span.stop := by
  induction spans with
  | nil => simp [covers]
  | cons first more ih =>
    obtain ⟨hfirst, hmore⟩ := List.pairwise_cons.mp h
    simp only [List.exists_mem_cons_iff]
    by_cases hstop : offset < first.stop
    · -- no later span begins before the first one ends
      have hlater : ¬∃ span ∈ more, span.start ≤ offset ∧ offset < span.stop := by
        rintro ⟨span, hspan, hstart, -⟩
        have := hfirst span hspan
        omega
      rw [covers_cons_of_lt_stop hstop, decide_eq_true_eq]
      exact ⟨fun hstart => Or.inl ⟨hstart, hstop⟩,
        fun hin => (hin.resolve_right hlater).1⟩
    · have hended : ∀ span ∈ [first], span.stop ≤ offset := by simpa using hstop
      rw [← List.singleton_append, covers_append_of_stop_le hended, ih hmore]
      exact ⟨Or.inr, fun hin => hin.resolve_left fun hfirst => hstop hfirst.2⟩

end Span

namespace LiteralSpans

/-! ## Scans step by step -/

namespace Step

variable {pos : Nat} {mode next : ScanMode} {token : List Char} {covered : Bool}
  {spans : List Span}

/-- A step ends no span but the one that the scanner stands in. -/
theorem start_of_mem (h : Step pos mode token covered spans next) {span : Span}
    (hspan : span ∈ spans) : mode.start? = some span.start := by
  cases h with
  | code | opened | openedComment | inside => exact absurd hspan List.not_mem_nil
  | closed _ hmode => rwa [List.mem_singleton.mp hspan]
  | openedHole hmode => rwa [List.mem_singleton.mp hspan]
  | closedComment hmode => rwa [List.mem_singleton.mp hspan]

/-- A span ends in front of what the step that ends it reads, or behind it. -/
theorem stop_eq_of_mem (h : Step pos mode token covered spans next) {span : Span}
    (hspan : span ∈ spans) : span.stop = pos ∨ span.stop = pos + utf8Size token := by
  cases h with
  | code | opened | openedComment | inside => exact absurd hspan List.not_mem_nil
  | closed | openedHole =>
    rw [List.mem_singleton.mp hspan]
    exact Or.inl rfl
  | closedComment =>
    rw [List.mem_singleton.mp hspan]
    exact Or.inr rfl

/-- A span has ended when the step that ends it has been read. -/
theorem stop_of_mem (h : Step pos mode token covered spans next) {span : Span}
    (hspan : span ∈ spans) : span.stop ≤ pos + utf8Size token := by
  rcases h.stop_eq_of_mem hspan with hstop | hstop <;> omega

/-- A step inside a literal or comment stays in it or ends its span, behind its own start if it is
covered. -/
theorem stays_or_ends (h : Step pos mode token covered spans next) {start : Nat}
    (hmode : mode.start? = some start) :
    (next = mode ∧ spans = []) ∨
      ∃ stop, spans = [⟨start, stop⟩] ∧ pos ≤ stop ∧ (covered = true → pos < stop) := by
  cases h with
  | code | opened | openedComment => exact absurd hmode (by simp [ScanMode.start?])
  | inside => exact Or.inl ⟨rfl, rfl⟩
  | closed _ hmode' | openedHole hmode' =>
    obtain rfl := Option.some.inj (hmode'.symm.trans hmode)
    exact Or.inr ⟨pos, rfl, Nat.le_refl pos, by simp⟩
  | closedComment hmode' =>
    obtain rfl := Option.some.inj (hmode'.symm.trans hmode)
    exact Or.inr ⟨pos + 2, rfl, Nat.le_add_right pos 2, by simp⟩

/-- A step that ends a span ends only this one and leads into code. -/
theorem next_eq_code_of_ended (h : Step pos mode token covered spans next) :
    spans = [] ∨ ∃ span, spans = [span] ∧ next = .code := by
  cases h with
  | code | opened | openedComment | inside => exact Or.inl rfl
  | closed | openedHole | closedComment => exact Or.inr ⟨_, rfl, rfl⟩

/-- What the scanner stands in behind a step began in front of what the step reads or behind it, or
the scanner stood in it before. -/
theorem start_of_next (h : Step pos mode token covered spans next) {start : Nat}
    (hnext : next.start? = some start) :
    (start = pos ∨ start = pos + utf8Size token) ∨ mode.start? = some start := by
  cases h with
  | code | closed | openedHole | closedComment => exact absurd hnext (by simp [ScanMode.start?])
  | opened c hc hmode =>
    -- the quote or brace takes one byte
    have hsize : utf8Size [c] = 1 := by rcases hc with rfl | rfl | rfl | rfl <;> rfl
    obtain rfl := Option.some.inj (hmode.symm.trans hnext)
    exact Or.inl (Or.inr (by rw [hsize]))
  | openedComment _ _ hmode =>
    obtain rfl := Option.some.inj (hmode.symm.trans hnext)
    exact Or.inl (Or.inl rfl)
  | inside => exact Or.inr hnext

/-- A step reads something. -/
theorem token_ne_nil (h : Step pos mode token covered spans next) : token ≠ [] := by
  cases h with
  | inside _ htoken _ => obtain ⟨c, rfl | rfl⟩ := htoken <;> simp
  | code | opened | openedComment | closed | openedHole | closedComment => simp

end Step

namespace FirstStep

variable {mode : ScanMode} {holes : List Nat} {pos : Nat} {text : List Char}

/-- The scan goes on behind the first step. -/
theorem scan_rest (s : FirstStep mode holes pos text) :
    scan mode holes pos text = s.spans ++ scan s.next s.nextHoles s.stop s.rest := by
  have h := s.scan_eq s.rest List.prefix_rfl
  rwa [← s.text_eq] at h

theorem pos_lt_stop (s : FirstStep mode holes pos text) : pos < s.stop := by
  obtain ⟨c, rest, htoken⟩ := List.exists_cons_of_ne_nil s.step.token_ne_nil
  have hsize := Char.utf8Size_pos c
  rw [s.stop_eq, htoken, utf8Size_cons]
  omega

/-- The spans that end in a step end in front of the rest. -/
theorem stop_le_of_mem (s : FirstStep mode holes pos text) {span : Span} (h : span ∈ s.spans) :
    span.stop ≤ s.stop := by
  rw [s.stop_eq]
  exact s.step.stop_of_mem h

/-- The offset of a place behind a step, counted from the start of the step and from its end. -/
theorem stop_add (s : FirstStep mode holes pos text) {token : List Char} (h : s.token = token)
    (front : List Char) : pos + utf8Size (token ++ front) = s.stop + utf8Size front := by
  rw [s.stop_eq, h, utf8Size_append, Nat.add_assoc]

/-- Less text is left behind a step. -/
theorem rest_length_lt (s : FirstStep mode holes pos text) : s.rest.length < text.length := by
  have hlength := List.length_pos_of_ne_nil s.step.token_ne_nil
  have htotal := congrArg List.length s.text_eq
  rw [List.length_append] at htotal
  omega

/-- A character of the text is read by the first step or lies behind it. -/
theorem split (s : FirstStep mode holes pos text) {before after : List Char} {c : Char}
    (h : text = before ++ c :: after) :
    (∃ back, s.token = before ++ c :: back ∧ after = back ++ s.rest) ∨
      ∃ front, before = s.token ++ front ∧ s.rest = front ++ c :: after :=
  split_of_append_eq_append_cons (s.text_eq.symm.trans h)

end FirstStep

/-- What holds of a text that has ended, and of every text if it holds behind its first step, holds
of all texts. -/
theorem scan_induction_follows {motive : ScanMode → List Nat → Nat → List Char → Prop}
    (nil : ∀ mode holes pos, mode.Fits pos → motive mode holes pos [])
    (step : ∀ mode holes pos text (s : FirstStep mode holes pos text), s.Follows → mode.Fits pos →
      motive s.next s.nextHoles s.stop s.rest → motive mode holes pos text)
    {mode : ScanMode} (holes : List Nat) {pos : Nat} (text : List Char) (hfits : mode.Fits pos) :
    motive mode holes pos text := by
  induction hn : text.length using Nat.strongRecOn generalizing mode holes pos text with
  | _ n ih =>
    subst hn
    cases text with
    | nil => exact nil mode holes pos hfits
    | cons c rest =>
      obtain ⟨s, hs⟩ := exists_firstStep_follows holes pos c rest hfits
      exact step mode holes pos _ s hs hfits
        (ih _ s.rest_length_lt s.nextHoles s.rest s.next_fits rfl)

/-- The same without regard to what the scanner makes without its offsets. -/
theorem scan_induction {motive : ScanMode → List Nat → Nat → List Char → Prop}
    (nil : ∀ mode holes pos, mode.Fits pos → motive mode holes pos [])
    (step : ∀ mode holes pos text (s : FirstStep mode holes pos text), mode.Fits pos →
      motive s.next s.nextHoles s.stop s.rest → motive mode holes pos text)
    {mode : ScanMode} (holes : List Nat) {pos : Nat} (text : List Char) (hfits : mode.Fits pos) :
    motive mode holes pos text :=
  scan_induction_follows nil (fun mode holes pos text s _ => step mode holes pos text s) holes text
    hfits

/-- What holds of the character `c` where the first step reads it, and of every place of `c` if it
holds of the place seen from behind the first step, holds of all places. The place is given by the
text before it. -/
theorem scan_induction_at (c : Char) (after : List Char)
    {motive : ScanMode → List Nat → Nat → List Char → Prop}
    (here : ∀ mode holes pos before (s : FirstStep mode holes pos (before ++ c :: after)) back,
      s.Follows → mode.Fits pos → s.token = before ++ c :: back → after = back ++ s.rest →
      motive mode holes pos before)
    (behind : ∀ mode holes pos token front
      (s : FirstStep mode holes pos (token ++ front ++ c :: after)), s.Follows → mode.Fits pos →
      s.token = token → s.rest = front ++ c :: after → motive s.next s.nextHoles s.stop front →
      motive mode holes pos (token ++ front))
    {mode : ScanMode} (holes : List Nat) {pos : Nat} (before : List Char)
    (hfits : mode.Fits pos) : motive mode holes pos before := by
  suffices ∀ text before, text = before ++ c :: after → motive mode holes pos before from
    this _ before rfl
  intro text
  refine scan_induction_follows (motive := fun mode holes pos text => ∀ before,
    text = before ++ c :: after → motive mode holes pos before) ?nil ?step holes text hfits
  case nil =>
    intro _ _ _ _ before htext
    exact absurd htext (by simp)
  case step =>
    intro mode holes pos text s hs hfits ih before htext
    subst htext
    rcases s.split rfl with ⟨back, htoken, hafter⟩ | ⟨front, hbefore, hrest⟩
    · exact here mode holes pos before s back hs hfits htoken hafter
    · generalize htoken : s.token = token at hbefore
      subst hbefore
      exact behind mode holes pos token front s hs hfits htoken hrest (ih front hrest)

/-! ## Spans ahead -/

/-- The spans of a scan start ahead, apart from the one that the scanner stands in. -/
theorem start_of_mem_scan {mode : ScanMode} (holes : List Nat) {pos : Nat} (text : List Char)
    (hfits : mode.Fits pos) :
    ∀ span ∈ scan mode holes pos text, pos ≤ span.start ∨ mode.start? = some span.start := by
  refine scan_induction (motive := fun mode holes pos text => ∀ span ∈ scan mode holes pos text,
    pos ≤ span.start ∨ mode.start? = some span.start) ?nil ?step holes text hfits
  case nil =>
    intro mode holes pos _ span hspan
    rw [scan_nil] at hspan
    obtain ⟨start, hstart, rfl⟩ := List.mem_map.mp hspan
    exact Or.inr (Option.mem_toList.mp hstart)
  case step =>
    intro mode holes pos text s _ ih span hspan
    rw [s.scan_rest, List.mem_append] at hspan
    rcases hspan with hended | hspan
    · exact Or.inr (s.step.start_of_mem hended)
    · rcases ih span hspan with hahead | hopen
      · exact Or.inl (Nat.le_trans s.pos_lt_stop.le hahead)
      · exact (s.step.start_of_next hopen).imp_left (by omega)

/-- A scan that begins in code ends no span that starts before. -/
theorem le_start_of_mem_scan_code {holes : List Nat} {pos : Nat} {text : List Char} {span : Span}
    (h : span ∈ scan .code holes pos text) : pos ≤ span.start := by
  have hfits : ScanMode.code.Fits pos := trivial
  rcases start_of_mem_scan holes text hfits span h with hle | hopen
  · exact hle
  · exact absurd hopen (by simp [ScanMode.start?])

/-- Each span of a scan ends before the next one starts. -/
theorem scan_pairwise {mode : ScanMode} (holes : List Nat) {pos : Nat} (text : List Char)
    (hfits : mode.Fits pos) :
    (scan mode holes pos text).Pairwise fun a b => a.stop ≤ b.start := by
  refine scan_induction (motive := fun mode holes pos text =>
    (scan mode holes pos text).Pairwise fun a b => a.stop ≤ b.start) ?nil ?step holes text hfits
  case nil =>
    intro mode holes pos _
    rw [scan_nil]
    cases mode.start? <;> simp
  case step =>
    intro mode holes pos text s _ ih
    rw [s.scan_rest]
    rcases s.step.next_eq_code_of_ended with hnone | ⟨ended, hended, hcode⟩
    · rw [hnone]
      exact ih
    · -- behind the span that ends here the scan goes on in code
      have hstop : ended.stop ≤ s.stop := s.stop_le_of_mem (by rw [hended]; simp)
      rw [hended, List.singleton_append, List.pairwise_cons]
      refine ⟨fun span hspan => ?_, ih⟩
      rw [hcode] at hspan
      exact Nat.le_trans hstop (le_start_of_mem_scan_code hspan)

/-- An offset of a text is code if it lies in none of the spans. -/
theorem covers_eq_false_iff {text : List Char} {offset : Nat} :
    Span.covers (literalSpans text) offset = false
      ↔ ∀ span ∈ literalSpans text, ¬(span.start ≤ offset ∧ offset < span.stop) := by
  have hfits : ScanMode.code.Fits 0 := trivial
  rw [← Bool.not_eq_true, literalSpans, Span.covers_iff_of_pairwise (scan_pairwise [] text hfits),
    not_exists]
  simp only [not_and]

/-- Inside a literal or comment the scan goes on with the span of it, which ends ahead. -/
theorem exists_scan_eq_cons {mode : ScanMode} {start : Nat} (holes : List Nat) {pos : Nat}
    (text : List Char) (hfits : mode.Fits pos) (hmode : mode.start? = some start) :
    ∃ stop more, scan mode holes pos text = ⟨start, stop⟩ :: more ∧ pos ≤ stop := by
  revert hmode
  refine scan_induction (motive := fun mode holes pos text => mode.start? = some start →
    ∃ stop more, scan mode holes pos text = ⟨start, stop⟩ :: more ∧ pos ≤ stop) ?nil ?step holes
    text hfits
  case nil =>
    intro mode holes pos _ hmode
    refine ⟨pos, [], ?_, Nat.le_refl pos⟩
    rw [scan_nil, hmode]
    rfl
  case step =>
    intro mode holes pos text s _ ih hmode
    rw [s.scan_rest]
    rcases s.step.stays_or_ends hmode with ⟨hnext, hspans⟩ | ⟨stop, hspans, hstop, -⟩
    · obtain ⟨stop, more, hscan, hstop⟩ := ih (by rw [hnext]; exact hmode)
      exact ⟨stop, more, by rw [hspans, hscan]; rfl, Nat.le_trans s.pos_lt_stop.le hstop⟩
    · exact ⟨stop, _, by rw [hspans]; rfl, hstop⟩

/-! ## Coverage step by step -/

/-- A scan that begins in code covers nothing before. -/
theorem covers_scan_code_of_lt (holes : List Nat) {pos offset : Nat} (text : List Char)
    (h : offset < pos) : Span.covers (scan .code holes pos text) offset = false :=
  Span.covers_eq_false_of_lt_start fun _ hspan =>
    Nat.lt_of_lt_of_le h (le_start_of_mem_scan_code hspan)

/-- Inside a literal or comment everything read so far is covered. -/
theorem covers_scan_of_lt {mode : ScanMode} {start : Nat} (holes : List Nat) {pos offset : Nat}
    (text : List Char) (hfits : mode.Fits pos) (hmode : mode.start? = some start)
    (hstart : start ≤ offset) (h : offset < pos) :
    Span.covers (scan mode holes pos text) offset = true := by
  obtain ⟨stop, more, hscan, hstop⟩ := exists_scan_eq_cons holes text hfits hmode
  rw [hscan, Span.covers_cons_of_lt_stop (Nat.lt_of_lt_of_le h hstop)]
  exact decide_eq_true hstart

/-- A step covers all of the bytes that it reads, or none. -/
theorem Step.covers_token {pos offset : Nat} {mode next : ScanMode} {token : List Char}
    {covered : Bool} {spans : List Span} (h : Step pos mode token covered spans next)
    (hfits : mode.Fits pos) (hnext : next.Fits (pos + utf8Size token)) (holes : List Nat)
    (rest : List Char) (hpos : pos ≤ offset) (hlt : offset < pos + utf8Size token) :
    Span.covers (spans ++ scan next holes (pos + utf8Size token) rest) offset = covered := by
  cases h with
  | code c => exact covers_scan_code_of_lt holes rest hlt
  | opened c hc hmode =>
    -- the quote takes one byte, and the literal begins behind it
    have hsize : c.utf8Size = 1 := by rcases hc with rfl | rfl | rfl | rfl <;> rfl
    rw [utf8Size_cons, hsize] at hlt
    refine Span.covers_eq_false_of_lt_start fun span hspan => ?_
    rcases start_of_mem_scan holes rest hnext span hspan with hahead | hopen
    · rw [utf8Size_cons, hsize] at hahead
      exact Nat.lt_of_lt_of_le hlt hahead
    · obtain hstart := Option.some.inj (hmode.symm.trans hopen)
      rw [← hstart]
      exact hlt
  | openedComment c hc hmode => exact covers_scan_of_lt holes rest hnext hmode hpos hlt
  | inside _ _ hmode =>
    exact covers_scan_of_lt holes rest hnext hmode (Nat.le_trans (hfits.start_le hmode) hpos) hlt
  | closed c hmode =>
    rw [Span.covers_append_of_stop_le (by simpa using hpos)]
    exact covers_scan_code_of_lt holes rest hlt
  | openedHole hmode =>
    rw [Span.covers_append_of_stop_le (by simpa using hpos)]
    exact covers_scan_code_of_lt holes rest hlt
  | closedComment hmode =>
    rw [List.singleton_append, Span.covers_cons_of_lt_stop hlt]
    exact decide_eq_true (Nat.le_trans (hfits.start_le hmode) hpos)

namespace FirstStep

variable {mode : ScanMode} {holes : List Nat} {pos : Nat} {text : List Char} {offset : Nat}

/-- The bytes that the first step reads are covered as the step says. -/
theorem covers_token (s : FirstStep mode holes pos text) (hfits : mode.Fits pos)
    (hpos : pos ≤ offset) (h : offset < s.stop) :
    Span.covers (scan mode holes pos text) offset = s.covered := by
  have hnext := s.next_fits
  rw [s.scan_rest]
  rw [s.stop_eq] at h hnext ⊢
  exact s.step.covers_token hfits hnext s.nextHoles s.rest hpos h

/-- The bytes behind the first step are covered as the scan that goes on there says. -/
theorem covers_rest (s : FirstStep mode holes pos text) (h : s.stop ≤ offset) :
    Span.covers (scan mode holes pos text) offset
      = Span.covers (scan s.next s.nextHoles s.stop s.rest) offset := by
  rw [s.scan_rest]
  exact Span.covers_append_of_stop_le fun span hspan => Nat.le_trans (s.stop_le_of_mem hspan) h

end FirstStep

/-! ## The step that reads a character -/

/-- The step of a scan that reads the character `c` behind `before`, where `early` and `back` are
the other characters that it reads. -/
structure StepReading (mode : ScanMode) (holes : List Nat) (pos : Nat) (before : List Char)
    (c : Char) (after : List Char) where
  /-- The spans ended by the steps before. -/
  ended : List Span
  stepMode : ScanMode
  stepHoles : List Nat
  place : Nat
  rest : List Char
  step : FirstStep stepMode stepHoles place rest
  early : List Char
  back : List Char
  fits : stepMode.Fits place
  le_place : pos ≤ place
  stop_le_of_mem : ∀ span ∈ ended, span.stop ≤ place
  scan_eq : scan mode holes pos (before ++ c :: after)
    = ended ++ scan stepMode stepHoles place rest
  token_eq : step.token = early ++ c :: back
  after_eq : after = back ++ step.rest
  place_eq : place + utf8Size early = pos + utf8Size before

/-- Every character of a text is read by some step. -/
theorem exists_stepReading {mode : ScanMode} (holes : List Nat) {pos : Nat} (hfits : mode.Fits pos)
    (before : List Char) (c : Char) (after : List Char) :
    Nonempty (StepReading mode holes pos before c after) := by
  refine scan_induction_at c after (motive := fun mode holes pos before =>
    Nonempty (StepReading mode holes pos before c after)) ?here ?behind holes before hfits
  case here =>
    intro mode holes pos before s back _ hfits htoken hafter
    exact ⟨⟨[], mode, holes, pos, _, s, before, back, hfits, Nat.le_refl pos, by simp, rfl, htoken,
      hafter, rfl⟩⟩
  case behind =>
    intro mode holes pos token front s _ _ htoken hrest ⟨r⟩
    have hplace : pos ≤ r.place := Nat.le_trans s.pos_lt_stop.le r.le_place
    refine ⟨⟨s.spans ++ r.ended, r.stepMode, r.stepHoles, r.place, r.rest, r.step, r.early, r.back,
      r.fits, hplace, fun span hspan => ?_, ?_, r.token_eq, r.after_eq, ?_⟩⟩
    · rcases List.mem_append.mp hspan with hspan | hspan
      · exact Nat.le_trans (s.stop_le_of_mem hspan) r.le_place
      · exact r.stop_le_of_mem span hspan
    · rw [s.scan_rest, hrest, r.scan_eq, ← List.append_assoc]
    · rw [r.place_eq, s.stop_add htoken]

namespace StepReading

variable {mode : ScanMode} {holes : List Nat} {pos : Nat} {before : List Char} {c : Char}
  {after : List Char}

/-- The bytes of the character are covered as its step says. -/
theorem covers_eq (r : StepReading mode holes pos before c after) {offset : Nat}
    (hlow : pos + utf8Size before ≤ offset) (hhigh : offset < pos + utf8Size before + c.utf8Size) :
    Span.covers (scan mode holes pos (before ++ c :: after)) offset = r.step.covered := by
  have hplace := r.place_eq
  have hstop := r.step.stop_eq
  rw [r.token_eq, utf8Size_append, utf8Size_cons] at hstop
  have hle : r.place ≤ offset := by omega
  rw [r.scan_eq, Span.covers_append_of_stop_le fun span hspan =>
    Nat.le_trans (r.stop_le_of_mem span hspan) hle]
  exact r.step.covers_token r.fits hle (by omega)

/-- Behind a step that ends with the character the scan goes on with what follows it. -/
theorem scan_behind (r : StepReading mode holes pos before c after) (hback : r.back = []) :
    scan mode holes pos (before ++ c :: after) = (r.ended ++ r.step.spans)
      ++ scan r.step.next r.step.nextHoles (pos + utf8Size before + c.utf8Size) after := by
  have hplace := r.place_eq
  have hstop := r.step.stop_eq
  have hrest : r.step.rest = r.back ++ r.step.rest := by rw [hback, List.nil_append]
  replace hrest := hrest.trans r.after_eq.symm
  rw [r.token_eq, hback, utf8Size_append, utf8Size_cons, utf8Size_nil] at hstop
  have hbehind : r.step.stop = pos + utf8Size before + c.utf8Size := by omega
  rw [r.scan_eq, r.step.scan_rest, hbehind, hrest, List.append_assoc]

end StepReading

/-- The bytes of one character are covered alike. -/
theorem covers_char {mode : ScanMode} (holes : List Nat) {pos : Nat} (hfits : mode.Fits pos)
    {before : List Char} {c : Char} (after : List Char) {offset : Nat}
    (hlow : pos + utf8Size before ≤ offset) (hhigh : offset < pos + utf8Size before + c.utf8Size) :
    Span.covers (scan mode holes pos (before ++ c :: after)) offset
      = Span.covers (scan mode holes pos (before ++ c :: after)) (pos + utf8Size before) := by
  obtain ⟨r⟩ := exists_stepReading holes hfits before c after
  have hsize := Char.utf8Size_pos c
  rw [r.covers_eq hlow hhigh, r.covers_eq (Nat.le_refl _) (by omega)]

/-- The characters behind which the scanner may stand in a literal although they are not covered:
those that open one, the brace that closes a hole, and the first half of what opens a hole. -/
def openers : List Char :=
  ['\'', '"', '\x60', '}', '$']

/-- A step that covers nothing ends in code with its last character, unless that is an opener. -/
theorem Step.next_eq_code {pos : Nat} {mode next : ScanMode} {token : List Char}
    {spans : List Span} (h : Step pos mode token false spans next) {before back : List Char}
    {c : Char} (htoken : token = before ++ c :: back) (hc : c ∉ openers) :
    back = [] ∧ next = .code ∧ ∀ span ∈ spans, span.stop ≤ pos := by
  cases h with
  | code d =>
    obtain ⟨-, -, hback⟩ := eq_of_singleton_eq_append htoken
    exact ⟨hback, rfl, by simp⟩
  | opened d hd =>
    obtain ⟨rfl, -, -⟩ := eq_of_singleton_eq_append htoken
    refine absurd ?_ hc
    rcases hd with rfl | rfl | rfl | rfl <;> simp [openers]
  | closed d =>
    obtain ⟨-, -, hback⟩ := eq_of_singleton_eq_append htoken
    exact ⟨hback, rfl, by simp⟩
  | openedHole =>
    rcases eq_of_pair_eq_append htoken with rfl | ⟨-, hback⟩
    · exact absurd (by simp [openers]) hc
    · exact ⟨hback, rfl, by simp⟩

/-- Behind a character that is neither covered nor an opener the scanner stands in code. -/
theorem exists_code_behind {mode : ScanMode} (holes : List Nat) {pos : Nat} (hfits : mode.Fits pos)
    {before : List Char} {c : Char} (after : List Char) (hc : c ∉ openers)
    (hcovers : Span.covers (scan mode holes pos (before ++ c :: after)) (pos + utf8Size before)
      = false) :
    ∃ front holes', (∀ span ∈ front, span.stop ≤ pos + utf8Size before) ∧
      scan mode holes pos (before ++ c :: after)
        = front ++ scan .code holes' (pos + utf8Size before + c.utf8Size) after := by
  obtain ⟨r⟩ := exists_stepReading holes hfits before c after
  have hsize := Char.utf8Size_pos c
  have hplace := r.place_eq
  have hstep := r.step.step
  rw [r.covers_eq (Nat.le_refl _) (by omega)] at hcovers
  rw [hcovers] at hstep
  obtain ⟨hback, hnext, hspans⟩ := hstep.next_eq_code r.token_eq hc
  refine ⟨r.ended ++ r.step.spans, r.step.nextHoles, ?_, by rw [r.scan_behind hback, hnext]⟩
  intro span hspan
  rcases List.mem_append.mp hspan with hspan | hspan
  · have hstop := r.stop_le_of_mem span hspan
    omega
  · have hstop := hspans span hspan
    omega

/-! ## Reading code -/

/-- The characters that can take the scanner out of code or open and close braces. -/
def marks : List Char :=
  ['\'', '"', '\x60', '/', '{', '}']

/-- The scanner reads `text` in code and stands in code behind it, with the same holes open. -/
def ReadsCode (text : List Char) : Prop :=
  ∀ holes pos rest, scan .code holes pos (text ++ rest)
    = scan .code holes (pos + utf8Size text) rest

namespace ReadsCode

variable {s t : List Char}

theorem append (hs : ReadsCode s) (ht : ReadsCode t) : ReadsCode (s ++ t) := by
  intro holes pos rest
  rw [List.append_assoc, hs, ht, utf8Size_append, Nat.add_assoc]

theorem singleton {c : Char} (h : c ∉ marks) : ReadsCode [c] := by
  intro holes pos rest
  simp only [marks, List.mem_cons, List.not_mem_nil, or_false, not_or] at h
  rw [List.singleton_append, scan.eq_def]
  simp [h]

theorem of_forall (h : ∀ c ∈ s, c ∉ marks) : ReadsCode s := by
  induction s with
  | nil => exact fun _ _ _ => rfl
  | cons c rest ih =>
    obtain ⟨hc, hrest⟩ := List.forall_mem_cons.mp h
    exact (singleton hc).append (ih hrest)

/-- Braces that close each other, whether they stand in a template hole or not. -/
theorem braces (hs : ReadsCode s) : ReadsCode ('{' :: (s ++ ['}'])) := by
  intro holes pos rest
  have hsize : utf8Size ('{' :: (s ++ ['}'])) = 1 + utf8Size s + 1 := by
    rw [utf8Size_cons, utf8Size_append, ← Nat.add_assoc]
    rfl
  have htext : '{' :: (s ++ ['}']) ++ rest = '{' :: (s ++ '}' :: rest) := by simp
  rw [htext, hsize, ← Nat.add_assoc, ← Nat.add_assoc]
  cases holes with
  | nil =>
    rw [scan.eq_def]
    show scan .code [] (pos + 1) (s ++ '}' :: rest) = _
    rw [hs, scan.eq_def]
    simp
  | cons depth outer =>
    rw [scan.eq_def]
    show scan .code ((depth + 1) :: outer) (pos + 1) (s ++ '}' :: rest) = _
    rw [hs, scan.eq_def]
    simp

/-- Nothing of a text read in code is covered. -/
theorem covers_eq_false (hs : ReadsCode s) {holes : List Nat} {pos offset : Nat}
    (rest : List Char) (h : offset < pos + utf8Size s) :
    Span.covers (scan .code holes pos (s ++ rest)) offset = false := by
  rw [hs]
  exact covers_scan_code_of_lt holes rest h

end ReadsCode

/-- A text that begins with something other than an opener and goes on in code. -/
def StartsInCode (text : List Char) : Prop :=
  ∃ c rest, text = c :: rest ∧ c ∉ openers ∧ ReadsCode rest

namespace StartsInCode

variable {s t : List Char}

theorem append (hs : StartsInCode s) (ht : ReadsCode t) : StartsInCode (s ++ t) := by
  obtain ⟨c, rest, rfl, hc, hrest⟩ := hs
  exact ⟨c, rest ++ t, rfl, hc, hrest.append ht⟩

theorem of_forall (hne : s ≠ []) (h : ∀ c ∈ s, c ∉ openers ∧ c ∉ marks) : StartsInCode s := by
  obtain ⟨c, rest, rfl⟩ := List.exists_cons_of_ne_nil hne
  obtain ⟨hc, hrest⟩ := List.forall_mem_cons.mp h
  exact ⟨c, rest, rfl, hc.1, ReadsCode.of_forall fun d hd => (hrest d hd).2⟩

/-- Where the first byte of such a text is not covered, none of it is. -/
theorem covers_eq_false (hs : StartsInCode s) {text before after : List Char}
    (htext : text = before ++ (s ++ after))
    (hstart : Span.covers (literalSpans text) (utf8Size before) = false) {offset : Nat}
    (hlow : utf8Size before ≤ offset) (hhigh : offset < utf8Size before + utf8Size s) :
    Span.covers (literalSpans text) offset = false := by
  obtain ⟨c, rest, rfl, hc, hrest⟩ := hs
  have hfits : ScanMode.code.Fits 0 := trivial
  have hsplit : text = before ++ c :: (rest ++ after) := htext
  rw [literalSpans, ← Nat.zero_add (utf8Size before)] at hstart
  by_cases hfirst : offset < utf8Size before + c.utf8Size
  · rw [literalSpans, hsplit, covers_char [] hfits _ (by omega) (by omega), ← hsplit]
    exact hstart
  · rw [hsplit] at hstart
    obtain ⟨front, holes, hfront, hscan⟩ := exists_code_behind [] hfits _ hc hstart
    rw [utf8Size_cons] at hhigh
    rw [literalSpans, hsplit, hscan, Span.covers_append_of_stop_le]
    · exact hrest.covers_eq_false after (by omega)
    · intro span hspan
      have := hfront span hspan
      omega

end StartsInCode

end LiteralSpans
end SourceRepair
