import SourceRepair.Proofs.Literal.Borders

/-!
# Scanning a text in two parts

Where the scanner stands in code behind the first part of a text, it reads the second part as it
would read it alone: the spans of the whole are those of the first part, and those of the second
part that many bytes further on (`scan_append`, `scan_shift`). The one thing that the parts must not
do is to begin a comment together.

So the texts of the literals and comments come one part after the other (`literalTextsFrom_append`),
and a stretch of code between two others adds none, however long it is. The state that the scanner
is in also says which characters are code: those that neither open nor close anything are covered
except in code (`covers_scan_iff_after`).
-/

namespace SourceRepair

open Text

/-- The characters that open or close literals, comments and template holes, as a whole or together
with the next one. Behind none of the others does the scanner find itself elsewhere. -/
def delimiters : List Char :=
  ['\'', '"', '\x60', '\n', '$', '{', '/', '*']

/-- No comment begins with the last character of the first text and the first one of the second. -/
def OpensNoComment (front back : List Char) : Prop :=
  front.getLast? = some '/' → back.head? ≠ some '/' ∧ back.head? ≠ some '*'

theorem OpensNoComment.of_head {front back : List Char} {c : Char} (hc : c ∉ delimiters) :
    OpensNoComment front (c :: back) := fun _ => by
  constructor <;> rintro h <;> obtain rfl := Option.some.inj h <;> exact hc (by decide)

theorem OpensNoComment.of_last {front back : List Char} (h : ∀ c ∈ front.getLast?, c ≠ '/') :
    OpensNoComment front back := fun hlast => absurd rfl (h '/' hlast)

/-! ## States behind a part of a text -/

namespace ScanState

variable {s : ScanState} {c d : Char}

theorem eq_of_kind_eq {kind : LiteralKind} (h : s.kind = kind) : s = ⟨kind, s.holes⟩ := by
  rw [← h]

/-- A step that reads one character leads to the same state if nothing follows. -/
theorem next_step_none (s : ScanState) (c : Char) {ahead : Option Char}
    (h : (s.step c ahead).readsNext = false) :
    (s.step c none).next = (s.step c ahead).next := by
  obtain ⟨kind, holes⟩ := s
  cases kind with
  | code =>
    -- braces are counted in the holes
    rcases holes with _ | ⟨_ | depth, outer⟩
    all_goals
      simp only [step] at h ⊢
      repeat' split
      all_goals simp_all
  | quoted | template | lineComment | blockComment =>
    simp only [step] at h ⊢
    repeat' split
    all_goals simp_all

/-- Where a step takes two characters and the first one alone leads to code, the two open a
comment. -/
theorem eq_of_readsNext (h : (s.step c (some d)).readsNext = true)
    (hcode : (s.step c none).next.kind = .code) : c = '/' ∧ (d = '/' ∨ d = '*') := by
  obtain ⟨kind, holes⟩ := s
  cases kind with
  | code =>
    rcases holes with _ | ⟨_ | depth, outer⟩
    all_goals
      simp only [step] at h
      repeat' split at h
      all_goals simp_all
  | quoted | template | lineComment | blockComment =>
    simp only [step] at h hcode
    repeat' split at h
    all_goals simp_all

end ScanState

namespace LiteralSpans

variable {mode : ScanMode} {holes : List Nat} {pos : Nat} {text : List Char}

/-- The first step leads to the state behind its characters, also where less text follows. -/
theorem FirstStep.Follows.after_append {s : FirstStep mode holes pos text} (h : s.Follows)
    {front : List Char} (hfront : front <+: s.rest) :
    ScanState.after ⟨mode.kind, holes⟩ (s.token ++ front)
      = ScanState.after ⟨s.next.kind, s.nextHoles⟩ front := by
  cases front with
  | cons c front =>
    obtain ⟨tail, hrest⟩ := hfront
    exact h.after_eq (by rw [← hrest]; rfl)
  | nil =>
    rcases h with ⟨c, htoken, hstep⟩ | ⟨c, d, htoken, hstep⟩
    · have hread : (ScanState.step ⟨mode.kind, holes⟩ c s.rest.head?).readsNext = false := by
        rw [hstep]
      have hnext := ScanState.next_step_none _ _ hread
      rw [htoken]
      show (ScanState.step ⟨mode.kind, holes⟩ c none).next = _
      rw [hnext, hstep]
      rfl
    · rw [htoken]
      show ScanState.after _ [c, d] = _
      rw [ScanState.after_cons_cons (by rw [hstep]), hstep]

/-- A part of a text behind which the scanner stands in code ends with a step, unless a comment
begins there. -/
theorem FirstStep.Follows.exists_eq_append {s : FirstStep mode holes pos text} (h : s.Follows)
    {front back : List Char} (htext : text = front ++ back)
    (hcode : (ScanState.after ⟨mode.kind, holes⟩ front).kind = .code)
    (hborder : OpensNoComment front back) (hne : front ≠ []) :
    ∃ more, front = s.token ++ more ∧ s.rest = more ++ back := by
  have hboth : s.token ++ s.rest = front ++ back := s.text_eq.symm.trans htext
  rcases List.append_eq_append_iff.mp hboth with ⟨more, hfront, hrest⟩ | ⟨more, htoken, hback⟩
  · exact ⟨more, hfront, hrest⟩
  · rcases h with ⟨c, hsingle, hstep⟩ | ⟨c, d, hpair, hstep⟩
    · obtain ⟨e, front, rfl⟩ := List.exists_cons_of_ne_nil hne
      rw [hsingle] at htoken
      obtain ⟨rfl, hnil⟩ := List.cons.inj htoken
      obtain ⟨rfl, rfl⟩ := List.append_eq_nil_iff.mp hnil.symm
      exact ⟨[], by rw [hsingle]; rfl, by simpa using hback.symm⟩
    · obtain ⟨e, front, rfl⟩ := List.exists_cons_of_ne_nil hne
      rw [hpair] at htoken
      obtain ⟨rfl, hrest⟩ := List.cons.inj htoken
      cases front with
      | nil =>
        -- the part would end between the two characters of the step
        obtain rfl : more = [d] := hrest.symm
        have hopen := ScanState.eq_of_readsNext (by rw [hstep]) hcode
        obtain ⟨hline, hblock⟩ := hborder (by rw [hopen.1]; rfl)
        rw [hback] at hline hblock
        rcases hopen.2 with rfl | rfl
        · exact absurd rfl hline
        · exact absurd rfl hblock
      | cons f front =>
        obtain ⟨rfl, hnil⟩ := List.cons.inj hrest
        obtain ⟨rfl, rfl⟩ := List.append_eq_nil_iff.mp hnil.symm
        exact ⟨[], by rw [hpair]; rfl, by simpa using hback.symm⟩

/-- The two parts of a text are scanned one after the other where the first one ends in code. -/
theorem scan_append (hfits : mode.Fits pos) {front back : List Char}
    (hcode : (ScanState.after ⟨mode.kind, holes⟩ front).kind = .code)
    (hborder : OpensNoComment front back) :
    scan mode holes pos (front ++ back) = scan mode holes pos front
        ++ scan .code (ScanState.after ⟨mode.kind, holes⟩ front).holes (pos + utf8Size front) back ∧
      ScanState.after ⟨mode.kind, holes⟩ (front ++ back)
        = ScanState.after (ScanState.after ⟨mode.kind, holes⟩ front) back := by
  have hempty : ∀ (mode : ScanMode) holes pos,
      (ScanState.after ⟨mode.kind, holes⟩ []).kind = .code →
      scan mode holes pos back = scan mode holes pos [] ++ scan .code
          (ScanState.after ⟨mode.kind, holes⟩ []).holes (pos + utf8Size []) back := by
    intro mode holes pos hcode
    cases mode with
    | code => rw [scan_nil]; rfl
    | quoted | template | lineComment | blockComment => exact absurd hcode (by simp [ScanMode.kind])
  refine scan_induction_follows (motive := fun mode holes pos text => ∀ front,
    text = front ++ back → (ScanState.after ⟨mode.kind, holes⟩ front).kind = .code →
    OpensNoComment front back →
    scan mode holes pos text = scan mode holes pos front
        ++ scan .code (ScanState.after ⟨mode.kind, holes⟩ front).holes (pos + utf8Size front)
          back ∧
      ScanState.after ⟨mode.kind, holes⟩ text
        = ScanState.after (ScanState.after ⟨mode.kind, holes⟩ front) back)
    ?nil ?step holes (front ++ back) hfits front rfl hcode hborder
  case nil =>
    intro mode holes pos _ front htext hcode _
    obtain ⟨rfl, rfl⟩ := List.append_eq_nil_iff.mp htext.symm
    exact ⟨hempty mode holes pos hcode, rfl⟩
  case step =>
    intro mode holes pos text s hs hfits ih front htext hcode hborder
    by_cases hne : front = []
    · subst hne
      obtain rfl : text = back := htext
      exact ⟨hempty mode holes pos hcode, rfl⟩
    · obtain ⟨more, rfl, hrest⟩ := hs.exists_eq_append htext hcode hborder hne
      have hmore : more <+: s.rest := ⟨back, hrest.symm⟩
      rw [hs.after_append hmore] at hcode ⊢
      have hborder' : OpensNoComment more back := fun hlast =>
        hborder (by rw [List.getLast?_append, hlast]; rfl)
      obtain ⟨hscan, hafter⟩ := ih more hrest hcode hborder'
      have hplace : pos + utf8Size (s.token ++ more) = s.stop + utf8Size more := by
        rw [s.stop_eq, utf8Size_append, Nat.add_assoc]
      constructor
      · rw [s.scan_rest, hscan, s.scan_eq more hmore, hplace, List.append_assoc]
      · rw [← hafter]
        have hwhole := hs.after_append (List.prefix_refl s.rest)
        rwa [← s.text_eq] at hwhole

/-- In code, a second part is scanned on its own behind a first part that ends in code. -/
theorem scan_code_append {outer inner : List Nat} {front back : List Char}
    (hfront : ScanState.after ⟨.code, outer⟩ front = ⟨.code, inner⟩)
    (hborder : OpensNoComment front back) :
    scan .code outer 0 (front ++ back)
        = scan .code outer 0 front ++ scan .code inner (utf8Size front) back ∧
      ScanState.after ⟨.code, outer⟩ (front ++ back) = ScanState.after ⟨.code, inner⟩ back := by
  have hfits : ScanMode.code.Fits 0 := trivial
  have hstate : ScanState.after ⟨ScanMode.code.kind, outer⟩ front = ⟨.code, inner⟩ := hfront
  have happend := scan_append hfits (by rw [hstate]) hborder
  rwa [hstate, Nat.zero_add] at happend

/-- Behind a first part that ends in code the scanner goes on from there. -/
theorem after_append_of_code {outer inner : List Nat} {front back : List Char}
    (hfront : ScanState.after ⟨.code, outer⟩ front = ⟨.code, inner⟩)
    (hborder : OpensNoComment front back) :
    ScanState.after ⟨.code, outer⟩ (front ++ back) = ScanState.after ⟨.code, inner⟩ back :=
  (scan_code_append hfront hborder).2

/-! ## States and code -/

/-- A backslash alone leaves the scanner in the literal or comment where it stands. -/
theorem kind_step_backslash {s : ScanState} (h : s.kind ≠ .code) :
    (s.step '\\' none).next.kind ≠ .code := by
  obtain ⟨kind, holes⟩ := s
  cases kind with
  | code => exact absurd rfl h
  | quoted | template | lineComment | blockComment => simp [ScanState.step]

/-- In a literal or comment the scanner is not in code. -/
theorem kind_ne_code {start : Nat} (h : mode.start? = some start) : mode.kind ≠ .code := by
  cases mode with
  | code => exact absurd h (by simp [ScanMode.start?])
  | quoted | template | lineComment | blockComment => simp [ScanMode.kind]

/-- The first step covers a character that neither opens nor closes anything if the scanner does
not stand in code in front of it. -/
theorem FirstStep.covered_iff (s : FirstStep mode holes pos text) (hfits : mode.Fits pos)
    {before back : List Char} {c : Char} (htoken : s.token = before ++ c :: back)
    (hc : c ∉ delimiters) :
    s.covered = true ↔ (ScanState.after ⟨mode.kind, holes⟩ before).kind ≠ .code := by
  have hcover := s.covers_token hfits (Nat.le_refl pos) s.pos_lt_stop
  have htext := s.text_eq
  have hstep := s.step
  rw [htoken] at hstep htext
  simp only [delimiters, List.mem_cons, List.not_mem_nil, or_false, not_or] at hc
  obtain ⟨hsingle, hdouble, htick, hfeed, hdollar, hbrace, hslash, hstar⟩ := hc
  generalize hcovered : s.covered = covered at hstep
  generalize hspans : s.spans = spans at hstep
  generalize hnext : s.next = next at hstep
  generalize hwhole : before ++ c :: back = token at hstep
  cases hstep with
  | code d =>
    obtain ⟨-, rfl, -⟩ := eq_of_singleton_eq_append hwhole.symm
    simp [ScanMode.kind]
  | opened d =>
    obtain ⟨-, rfl, -⟩ := eq_of_singleton_eq_append hwhole.symm
    simp [ScanMode.kind]
  | openedComment d hd =>
    rcases eq_of_pair_eq_append hwhole.symm with rfl | ⟨rfl, -⟩
    · exact absurd rfl hslash
    · rcases hd with rfl | rfl
      · exact absurd rfl hslash
      · exact absurd rfl hstar
  | inside _ hread hmode =>
    refine ⟨fun _ => ?_, fun _ => rfl⟩
    obtain ⟨d, rfl | rfl⟩ := hread
    · obtain ⟨-, rfl, -⟩ := eq_of_singleton_eq_append hwhole.symm
      exact kind_ne_code hmode
    · cases before with
      | nil => exact kind_ne_code hmode
      | cons e before =>
        obtain ⟨rfl, hrest⟩ := List.cons.inj hwhole
        obtain ⟨-, rfl, -⟩ := eq_of_singleton_eq_append hrest.symm
        exact kind_step_backslash (kind_ne_code hmode)
  | closed d hmode =>
    -- what ends a literal or comment without belonging to it is a delimiter
    obtain ⟨rfl, rfl, rfl⟩ := eq_of_singleton_eq_append hwhole.symm
    rw [hcovered, htext] at hcover
    rcases mem_exits_of_covers_eq_false hfits hmode hcover with hexit | ⟨rfl, -⟩
    · simp only [exits, List.mem_cons, List.not_mem_nil, or_false] at hexit
      tauto
    · exact absurd rfl hdollar
  | openedHole =>
    rcases eq_of_pair_eq_append hwhole.symm with rfl | ⟨rfl, -⟩
    · exact absurd rfl hdollar
    · exact absurd rfl hbrace
  | closedComment =>
    rcases eq_of_pair_eq_append hwhole.symm with rfl | ⟨rfl, -⟩
    · exact absurd rfl hstar
    · exact absurd rfl hslash

/-- A character that neither opens nor closes anything is covered if the scanner does not stand in
code in front of it. -/
theorem covers_scan_iff_after (holes : List Nat) (hfits : mode.Fits pos) {c : Char}
    (hc : c ∉ delimiters) (before after : List Char) :
    Span.covers (scan mode holes pos (before ++ c :: after)) (pos + utf8Size before) = true ↔
      (ScanState.after ⟨mode.kind, holes⟩ before).kind ≠ .code := by
  refine scan_induction_at c after (motive := fun mode holes pos before =>
    (Span.covers (scan mode holes pos (before ++ c :: after)) (pos + utf8Size before) = true ↔
      (ScanState.after ⟨mode.kind, holes⟩ before).kind ≠ .code)) ?here ?behind holes before hfits
  case here =>
    intro mode holes pos before s back _ hfits htoken _
    have hstop := s.stop_eq
    have hsize := c.utf8Size_pos
    rw [htoken, utf8Size_append, utf8Size_cons] at hstop
    rw [s.covers_token hfits (by omega) (by omega)]
    exact s.covered_iff hfits htoken hc
  case behind =>
    intro mode holes pos token front s hs _ htoken hrest ih
    have hstate := hs.after_append ⟨c :: after, hrest.symm⟩
    rw [htoken] at hstate
    rw [hstate, s.stop_add htoken, s.covers_rest (Nat.le_add_right _ _), hrest]
    exact ih

/-- In a text, a character that neither opens nor closes anything is code if the scanner stands in
code in front of it. -/
theorem covers_eq_false_iff_after {c : Char} (hc : c ∉ delimiters) (before after : List Char) :
    Span.covers (literalSpans (before ++ c :: after)) (utf8Size before) = false ↔
      (ScanState.initial.after before).kind = .code := by
  have hfits : ScanMode.code.Fits 0 := trivial
  have h := (covers_scan_iff_after [] hfits hc before after).not
  rwa [Nat.zero_add, Bool.not_eq_true, not_not] at h

end LiteralSpans

namespace ScanState

/-- A word without marks is read in code, and leaves the scanner there with the same holes open. -/
theorem after_of_forall {holes : List Nat} {word : List Char}
    (h : ∀ c ∈ word, c ∉ LiteralSpans.marks) : after ⟨.code, holes⟩ word = ⟨.code, holes⟩ := by
  induction word with
  | nil => rfl
  | cons c rest ih =>
    obtain ⟨hc, hrest⟩ := List.forall_mem_cons.mp h
    simp only [LiteralSpans.marks, List.mem_cons, List.not_mem_nil, or_false, not_or] at hc
    have hstep : step ⟨.code, holes⟩ c rest.head? = ⟨false, false, ⟨.code, holes⟩⟩ := by
      simp [step, hc]
    rw [after_cons rest (by rw [hstep]), hstep]
    exact ih hrest

end ScanState

/-! ## Offsets -/

/-- The same range further on in a text. -/
def Span.shift (size : Nat) (span : Span) : Span :=
  ⟨span.start + size, span.stop + size⟩

/-- The same kind of text, begun further on. -/
def ScanMode.shift (size : Nat) : ScanMode → ScanMode
  | .code => .code
  | .quoted quote start => .quoted quote (start + size)
  | .template start => .template (start + size)
  | .lineComment start => .lineComment (start + size)
  | .blockComment start => .blockComment (start + size)

namespace LiteralSpans

/-- What is scanned further on has its spans there. -/
theorem scan_shift (mode : ScanMode) (holes : List Nat) (pos size : Nat) (text : List Char) :
    scan (mode.shift size) holes (pos + size) text
      = (scan mode holes pos text).map (·.shift size) := by
  fun_induction scan mode holes pos text
  case case1 mode _ _ => cases mode <;> rfl
  all_goals
    rw [scan.eq_def]
    simp_all [ScanMode.shift, Span.shift, Nat.add_right_comm]

/-- In code, a second part has its spans where the first one ends, if that ends in code. -/
theorem scan_code_append_shift {outer inner : List Nat} {front back : List Char}
    (hfront : ScanState.after ⟨.code, outer⟩ front = ⟨.code, inner⟩)
    (hborder : OpensNoComment front back) :
    scan .code outer 0 (front ++ back) = scan .code outer 0 front
      ++ (scan .code inner 0 back).map (·.shift (utf8Size front)) := by
  have hshift := scan_shift .code inner 0 (utf8Size front) back
  rw [Nat.zero_add] at hshift
  rw [(scan_code_append hfront hborder).1, ← hshift]
  rfl

/-- The spans of two texts in a row are those of the first one, if the scanner stands in code with
no hole open behind it, and those of the second one that many bytes further on. Behind both texts
the scanner stands where the second one alone leads it. -/
theorem literalSpans_append {front back : List Char}
    (hfront : ScanState.initial.after front = .initial)
    (hborder : ¬(front.getLast? = some '/' ∧ (back.head? = some '/' ∨ back.head? = some '*'))) :
    literalSpans (front ++ back)
        = literalSpans front ++ (literalSpans back).map (·.shift (utf8Size front)) ∧
      ScanState.initial.after (front ++ back) = ScanState.initial.after back := by
  have hopens : OpensNoComment front back := fun hlast =>
    not_or.mp fun hhead => hborder ⟨hlast, hhead⟩
  exact ⟨scan_code_append_shift hfront hopens, after_append_of_code hfront hopens⟩

/-- A template with a hole and a comment in front of a string and another comment: the first text
ends with the slash that closes its comment, and has a character of two bytes. -/
theorem literalSpans_append_comments :
    let front := "\x60é$\x7bx\x7d/\x60 /* c */".toList
    let back := "'b' // d".toList
    ScanState.initial.after front = .initial ∧
      ¬(front.getLast? = some '/' ∧ (back.head? = some '/' ∨ back.head? = some '*')) ∧
      literalSpans (front ++ back) = [⟨1, 3⟩, ⟨7, 8⟩, ⟨10, 17⟩, ⟨18, 19⟩, ⟨21, 25⟩] := by
  intro front back
  have hfront : ScanState.initial.after front = .initial := by decide
  have hborder : ¬(front.getLast? = some '/' ∧
      (back.head? = some '/' ∨ back.head? = some '*')) := by decide
  refine ⟨hfront, hborder, (literalSpans_append hfront hborder).1.trans ?_⟩
  have hspans : literalSpans front = [⟨1, 3⟩, ⟨7, 8⟩, ⟨10, 17⟩] := by decide +kernel
  have hspans' : literalSpans back = [⟨1, 2⟩, ⟨4, 8⟩] := by decide +kernel
  have hsize : utf8Size front = 17 := by decide
  rw [hspans, hspans', hsize]
  rfl

/-- The spans of a scan end in the text. -/
theorem stop_le_of_mem_scan {mode : ScanMode} (holes : List Nat) {pos : Nat} (text : List Char)
    (hfits : mode.Fits pos) :
    ∀ span ∈ scan mode holes pos text, span.stop ≤ pos + utf8Size text := by
  refine scan_induction (motive := fun mode holes pos text => ∀ span ∈ scan mode holes pos text,
    span.stop ≤ pos + utf8Size text) ?nil ?step holes text hfits
  case nil =>
    intro mode holes pos _ span hspan
    rw [scan_nil] at hspan
    obtain ⟨start, -, rfl⟩ := List.mem_map.mp hspan
    exact Nat.le_refl pos
  case step =>
    intro mode holes pos text s _ ih span hspan
    have htext := congrArg utf8Size s.text_eq
    have hstop := s.stop_eq
    rw [utf8Size_append] at htext
    rw [s.scan_rest, List.mem_append] at hspan
    rcases hspan with hended | hspan
    · have hlast := s.step.stop_of_mem hended
      omega
    · have hlast := ih span hspan
      omega

end LiteralSpans

/-! ## The texts of literals and comments -/

/-- The characters of a text in a range of offsets. -/
def Span.textIn (text : List Char) (span : Span) : List Char :=
  (splitAtByte span.start (splitAtByte span.stop text).1).2

/-- The texts of the literals and comments in a text, from left to right. -/
def literalTexts (text : List Char) : List (List Char) :=
  (literalSpans text).map (·.textIn text)

/-- A cut in the first of two texts leaves the second one as it is. -/
theorem Text.splitAtByte_append_of_le {offset : Nat} {front : List Char}
    (h : offset ≤ utf8Size front) (back : List Char) :
    splitAtByte offset (front ++ back)
      = ((splitAtByte offset front).1, (splitAtByte offset front).2 ++ back) := by
  induction front generalizing offset with
  | nil =>
    obtain rfl := Nat.le_zero.mp h
    cases back <;> simp [splitAtByte]
  | cons c rest ih =>
    rw [utf8Size_cons] at h
    by_cases hzero : offset = 0
    · simp [splitAtByte, hzero]
    · simp [splitAtByte, hzero, ih (show offset - c.utf8Size ≤ utf8Size rest by omega)]

/-- A cut in the second of two texts leaves the first one as it is. -/
theorem Text.splitAtByte_append_of_add (offset : Nat) (front back : List Char) :
    splitAtByte (offset + utf8Size front) (front ++ back)
      = (front ++ (splitAtByte offset back).1, (splitAtByte offset back).2) := by
  induction front with
  | nil => rfl
  | cons c rest ih =>
    have hpos := c.utf8Size_pos
    have hzero : offset + utf8Size (c :: rest) ≠ 0 := by
      rw [utf8Size_cons]
      omega
    have hrest : offset + utf8Size (c :: rest) - c.utf8Size = offset + utf8Size rest := by
      rw [utf8Size_cons]
      omega
    rw [List.cons_append, splitAtByte, if_neg hzero, hrest, ih]
    rfl

namespace Span

variable {span : Span} {front : List Char}

theorem textIn_append_of_stop_le (h : span.stop ≤ utf8Size front) (back : List Char) :
    span.textIn (front ++ back) = span.textIn front := by
  rw [textIn, textIn, splitAtByte_append_of_le h]

theorem textIn_shift (span : Span) (front back : List Char) :
    (span.shift (utf8Size front)).textIn (front ++ back) = span.textIn back := by
  rw [textIn, textIn, shift, splitAtByte_append_of_add, splitAtByte_append_of_add]

end Span

namespace LiteralSpans

/-- The texts of the literals and comments in a text that is read from code with some holes open. -/
def literalTextsFrom (holes : List Nat) (text : List Char) : List (List Char) :=
  (scan .code holes 0 text).map (·.textIn text)

variable {holes inner : List Nat} {front word : List Char}

/-- The literals and comments of two texts are those of the first one, if it ends in code, and those
of the second one. -/
theorem literalTextsFrom_append (hafter : ScanState.after ⟨.code, holes⟩ front = ⟨.code, inner⟩)
    {back : List Char} (hborder : OpensNoComment front back) :
    literalTextsFrom holes (front ++ back)
      = literalTextsFrom holes front ++ literalTextsFrom inner back := by
  have hfits : ScanMode.code.Fits 0 := trivial
  rw [literalTextsFrom, scan_code_append_shift hafter hborder, List.map_append, List.map_map]
  congr 1
  · refine List.map_congr_left fun span hspan => ?_
    have hstop := stop_le_of_mem_scan holes front hfits span hspan
    exact Span.textIn_append_of_stop_le (by omega) back
  · exact List.map_congr_left fun span _ => Span.textIn_shift span front back

/-- A word without marks between code and the rest of a text adds no literal or comment. -/
theorem literalTextsFrom_word (h : ∀ c ∈ word, c ∉ marks) (back : List Char) :
    literalTextsFrom holes (word ++ back) = literalTextsFrom holes back := by
  have hborder : OpensNoComment word back := OpensNoComment.of_last fun c hc hslash =>
    h c (List.mem_of_getLast? hc) (by rw [hslash]; decide)
  have hread := (ReadsCode.of_forall h) holes 0 []
  rw [List.append_nil, scan_nil] at hread
  rw [literalTextsFrom_append (ScanState.after_of_forall h) hborder, literalTextsFrom, hread]
  rfl

end LiteralSpans
end SourceRepair
