import Mathlib
import SourceRepair.Proofs.Literal.States

/-!
# The scanner, step by step

`LiteralSpans.scan` has some twenty branches, but what a reader of its spans has to know of one
step is little: which characters it reads, whether they are literal, which span it ends, and where
the scanner stands behind it. `Step` lists the kinds of steps, and `exists_firstStep` says that a
scan begins with one of them. Everything proved about spans starts from there.

A step that looks ahead reads the same characters when less text follows. So a scan of the beginning
of a text goes the same way as a scan of the whole.
-/

namespace SourceRepair

open Text

namespace ScanMode

/-- Where the literal or comment began that the scanner stands in. -/
def start? : ScanMode → Option Nat
  | .code => none
  | .quoted _ start => some start
  | .template start => some start
  | .lineComment start => some start
  | .blockComment start => some start

/-- The scanner stands in code if nothing is open. -/
theorem eq_code_of_start?_eq_none {mode : ScanMode} (h : mode.start? = none) : mode = .code := by
  cases mode with
  | code => rfl
  | quoted | template | lineComment | blockComment => exact absurd h (by simp [start?])

/-- What is open when the text ends goes up to its end. -/
theorem openSpan_eq (mode : ScanMode) (stop : Nat) :
    mode.openSpan stop = mode.start?.toList.map fun start => ⟨start, stop⟩ := by
  cases mode <;> rfl

/-- A mode that the scanner can be in at offset `pos`: a string literal has one of the two quotes,
and what the scanner stands in began at or before that offset. -/
def Fits (pos : Nat) : ScanMode → Prop
  | .code => True
  | .quoted quote start => (quote = '\'' ∨ quote = '"') ∧ start ≤ pos
  | .template start => start ≤ pos
  | .lineComment start => start ≤ pos
  | .blockComment start => start ≤ pos

theorem Fits.start_le {mode : ScanMode} {pos start : Nat} (h : mode.Fits pos)
    (hmode : mode.start? = some start) : start ≤ pos := by
  cases mode with
  | code => exact absurd hmode (by simp [start?])
  | quoted quote _ => exact Option.some.inj hmode ▸ h.2
  | template _ => exact Option.some.inj hmode ▸ h
  | lineComment _ => exact Option.some.inj hmode ▸ h
  | blockComment _ => exact Option.some.inj hmode ▸ h

theorem Fits.mono {mode : ScanMode} {pos later : Nat} (h : mode.Fits pos) (hle : pos ≤ later) :
    mode.Fits later := by
  cases mode with
  | code => trivial
  | quoted quote _ => exact ⟨h.1, Nat.le_trans h.2 hle⟩
  | template _ => exact Nat.le_trans h hle
  | lineComment _ => exact Nat.le_trans h hle
  | blockComment _ => exact Nat.le_trans h hle

end ScanMode

namespace LiteralSpans

/-- At the end of the text the span of what is open ends. -/
theorem scan_nil (mode : ScanMode) (holes : List Nat) (pos : Nat) :
    scan mode holes pos [] = mode.start?.toList.map fun start => ⟨start, pos⟩ := by
  rw [scan.eq_def]
  exact mode.openSpan_eq pos

/-- What one step of the scanner can do at offset `pos`: the mode before it, the characters read,
whether they belong to a literal or comment, the spans ended, and the mode behind it. -/
inductive Step (pos : Nat) : ScanMode → List Char → Bool → List Span → ScanMode → Prop
  | code (c : Char) : Step pos .code [c] false [] .code
  /-- A quote opens a literal, or a brace closes a hole and goes on with the template around it. -/
  | opened {mode : ScanMode} (c : Char) (hc : c = '\'' ∨ c = '"' ∨ c = '\x60' ∨ c = '}')
      (hmode : mode.start? = some (pos + 1)) : Step pos .code [c] false [] mode
  | openedComment {mode : ScanMode} (c : Char) (hc : c = '/' ∨ c = '*')
      (hmode : mode.start? = some pos) : Step pos .code ['/', c] true [] mode
  /-- One character more, or a backslash and the character behind it. -/
  | inside {mode : ScanMode} {start : Nat} (token : List Char)
      (htoken : ∃ c, token = [c] ∨ token = ['\\', c]) (hmode : mode.start? = some start) :
      Step pos mode token true [] mode
  | closed {mode : ScanMode} {start : Nat} (c : Char) (hmode : mode.start? = some start) :
      Step pos mode [c] false [⟨start, pos⟩] .code
  | openedHole {mode : ScanMode} {start : Nat} (hmode : mode.start? = some start) :
      Step pos mode ['$', '{'] false [⟨start, pos⟩] .code
  | closedComment {mode : ScanMode} {start : Nat} (hmode : mode.start? = some start) :
      Step pos mode ['*', '/'] true [⟨start, pos + 2⟩] .code

/-- The first step of a scan. -/
structure FirstStep (mode : ScanMode) (holes : List Nat) (pos : Nat) (text : List Char) where
  token : List Char
  rest : List Char
  covered : Bool
  spans : List Span
  next : ScanMode
  nextHoles : List Nat
  stop : Nat
  text_eq : text = token ++ rest
  stop_eq : stop = pos + utf8Size token
  step : Step pos mode token covered spans next
  next_fits : next.Fits stop
  /-- The scan goes on behind the step, also where less text follows. -/
  scan_eq : ∀ front, front <+: rest →
    scan mode holes pos (token ++ front) = spans ++ scan next nextHoles stop front

/-- The first step is the one that the scanner without offsets makes. -/
def FirstStep.Follows {mode : ScanMode} {holes : List Nat} {pos : Nat} {text : List Char}
    (s : FirstStep mode holes pos text) : Prop :=
  (∃ c, s.token = [c] ∧ ScanState.step ⟨mode.kind, holes⟩ c s.rest.head?
      = ⟨s.covered, false, ⟨s.next.kind, s.nextHoles⟩⟩) ∨
    ∃ c d, s.token = [c, d] ∧ ScanState.step ⟨mode.kind, holes⟩ c (some d)
      = ⟨s.covered, true, ⟨s.next.kind, s.nextHoles⟩⟩

/-- A text that does not start with a character has another one ahead, or none. -/
theorem head?_ne_of_ne_cons {rest : List Char} {c : Char} (h : ¬∃ r, rest = c :: r) :
    rest.head? ≠ some c := by
  intro hhead
  obtain ⟨r, hr⟩ := List.head?_eq_some_iff.mp hhead
  exact h ⟨r, hr⟩

/-- A beginning of a text starts with a character only if the text does. -/
theorem ne_cons_of_prefix {front rest : List Char} {c : Char} (h : front <+: rest)
    (hrest : ¬∃ r, rest = c :: r) (r : List Char) : front ≠ c :: r := by
  obtain ⟨tail, rfl⟩ := h
  rintro rfl
  exact hrest ⟨r ++ tail, rfl⟩

variable (holes : List Nat) (pos : Nat) (c : Char) (rest : List Char)

/-! ## Steps in code -/

theorem exists_firstStep_slash : ∃ s : FirstStep .code holes pos ('/' :: rest), s.Follows := by
  by_cases hline : ∃ r, rest = '/' :: r
  · obtain ⟨r, rfl⟩ := hline
    refine ⟨⟨['/', '/'], r, true, [], .lineComment pos, holes, pos + 2, rfl, rfl,
      .openedComment '/' (Or.inl rfl) rfl, Nat.le_add_right _ _, fun front _ => ?_⟩,
      Or.inr ⟨_, _, rfl, rfl⟩⟩
    rw [scan.eq_def]
    simp
  by_cases hblock : ∃ r, rest = '*' :: r
  · obtain ⟨r, rfl⟩ := hblock
    refine ⟨⟨['/', '*'], r, true, [], .blockComment pos, holes, pos + 2, rfl, rfl,
      .openedComment '*' (Or.inr rfl) rfl, Nat.le_add_right _ _, fun front _ => ?_⟩,
      Or.inr ⟨_, _, rfl, rfl⟩⟩
    rw [scan.eq_def]
    simp
  · have hstep : ScanState.step ⟨.code, holes⟩ '/' rest.head?
        = ⟨false, false, ⟨.code, holes⟩⟩ := by
      simp [ScanState.step, head?_ne_of_ne_cons hline, head?_ne_of_ne_cons hblock]
    refine ⟨⟨['/'], rest, false, [], .code, holes, pos + 1, rfl, rfl, .code _, trivial,
      fun front hfront => ?_⟩, Or.inl ⟨_, rfl, hstep⟩⟩
    have hline := ne_cons_of_prefix hfront hline
    have hblock := ne_cons_of_prefix hfront hblock
    rw [scan.eq_def]
    simp

theorem exists_firstStep_openBrace :
    ∃ s : FirstStep .code holes pos ('{' :: rest), s.Follows := by
  cases holes with
  | nil =>
    refine ⟨⟨['{'], rest, false, [], .code, [], pos + 1, rfl, rfl, .code _, trivial,
      fun front _ => ?_⟩, Or.inl ⟨_, rfl, rfl⟩⟩
    rw [scan.eq_def]
    simp
  | cons depth outer =>
    refine ⟨⟨['{'], rest, false, [], .code, (depth + 1) :: outer, pos + 1, rfl, rfl, .code _,
      trivial, fun front _ => ?_⟩, Or.inl ⟨_, rfl, rfl⟩⟩
    rw [scan.eq_def]
    simp

theorem exists_firstStep_closeBrace :
    ∃ s : FirstStep .code holes pos ('}' :: rest), s.Follows := by
  rcases holes with _ | ⟨_ | depth, outer⟩
  · refine ⟨⟨['}'], rest, false, [], .code, [], pos + 1, rfl, rfl, .code _, trivial,
      fun front _ => ?_⟩, Or.inl ⟨_, rfl, rfl⟩⟩
    rw [scan.eq_def]
    simp
  · refine ⟨⟨['}'], rest, false, [], .template (pos + 1), outer, pos + 1, rfl, rfl,
      .opened _ (by simp) rfl, Nat.le_refl _, fun front _ => ?_⟩, Or.inl ⟨_, rfl, rfl⟩⟩
    rw [scan.eq_def]
    simp
  · refine ⟨⟨['}'], rest, false, [], .code, depth :: outer, pos + 1, rfl, rfl, .code _, trivial,
      fun front _ => ?_⟩, Or.inl ⟨_, rfl, rfl⟩⟩
    rw [scan.eq_def]
    simp

theorem exists_firstStep_code : ∃ s : FirstStep .code holes pos (c :: rest), s.Follows := by
  by_cases hsingle : c = '\''
  · subst hsingle
    refine ⟨⟨['\''], rest, false, [], .quoted '\'' (pos + 1), holes, pos + 1, rfl, rfl,
      .opened _ (by simp) rfl, ⟨Or.inl rfl, Nat.le_refl _⟩, fun front _ => ?_⟩,
      Or.inl ⟨_, rfl, rfl⟩⟩
    rw [scan.eq_def]
    simp
  by_cases hdouble : c = '"'
  · subst hdouble
    refine ⟨⟨['"'], rest, false, [], .quoted '"' (pos + 1), holes, pos + 1, rfl, rfl,
      .opened _ (by simp) rfl, ⟨Or.inr rfl, Nat.le_refl _⟩, fun front _ => ?_⟩,
      Or.inl ⟨_, rfl, rfl⟩⟩
    rw [scan.eq_def]
    simp
  by_cases htemplate : c = '\x60'
  · subst htemplate
    refine ⟨⟨['\x60'], rest, false, [], .template (pos + 1), holes, pos + 1, rfl, rfl,
      .opened _ (by simp) rfl, Nat.le_refl _, fun front _ => ?_⟩, Or.inl ⟨_, rfl, rfl⟩⟩
    rw [scan.eq_def]
    simp
  by_cases hslash : c = '/'
  · subst hslash
    exact exists_firstStep_slash holes pos rest
  by_cases hopen : c = '{'
  · subst hopen
    exact exists_firstStep_openBrace holes pos rest
  by_cases hclose : c = '}'
  · subst hclose
    exact exists_firstStep_closeBrace holes pos rest
  · have hstep : ScanState.step ⟨.code, holes⟩ c rest.head? = ⟨false, false, ⟨.code, holes⟩⟩ := by
      simp [ScanState.step, hsingle, hdouble, htemplate, hslash, hopen, hclose]
    refine ⟨⟨[c], rest, false, [], .code, holes, pos + c.utf8Size, rfl, rfl, .code c, trivial,
      fun front _ => ?_⟩, Or.inl ⟨_, rfl, hstep⟩⟩
    rw [scan.eq_def]
    simp [hsingle, hdouble, htemplate, hslash, hopen, hclose]

/-! ## Steps in literals and comments -/

section Inside

variable {start : Nat}

/-- A backslash inside a literal takes the next character with it, whatever that is. -/
theorem exists_firstStep_escape {mode : ScanMode} (hmode : mode.start? = some start)
    (hfits : mode.Fits pos)
    (hlast : scan mode holes pos ['\\'] = scan mode holes (pos + 1) [])
    (hmore : ∀ d text, scan mode holes pos ('\\' :: d :: text)
      = scan mode holes (pos + 1 + d.utf8Size) text)
    (hstep : ∀ ahead, ScanState.step ⟨mode.kind, holes⟩ '\\' ahead
      = ⟨true, ahead.isSome, ⟨mode.kind, holes⟩⟩) :
    ∃ s : FirstStep mode holes pos ('\\' :: rest), s.Follows := by
  cases rest with
  | nil =>
    refine ⟨⟨['\\'], [], true, [], mode, holes, pos + 1, rfl, rfl, .inside _ ⟨_, .inl rfl⟩ hmode,
      hfits.mono (by omega), fun front hfront => ?_⟩, Or.inl ⟨_, rfl, hstep none⟩⟩
    obtain rfl := List.prefix_nil.mp hfront
    exact hlast
  | cons d rest =>
    refine ⟨⟨['\\', d], rest, true, [], mode, holes, pos + 1 + d.utf8Size, rfl, ?_,
      .inside _ ⟨d, .inr rfl⟩ hmode, hfits.mono (by omega), fun front _ => hmore d front⟩,
      Or.inr ⟨_, d, rfl, hstep (some d)⟩⟩
    exact Nat.add_assoc pos 1 d.utf8Size

/-- A character inside a literal or comment that ends nothing. -/
theorem exists_firstStep_inside {mode : ScanMode} {stop : Nat} (hmode : mode.start? = some start)
    (hfits : mode.Fits pos) (hstop : stop = pos + c.utf8Size)
    (hscan : ∀ front, front <+: rest →
      scan mode holes pos (c :: front) = scan mode holes stop front)
    (hstep : ScanState.step ⟨mode.kind, holes⟩ c rest.head?
      = ⟨true, false, ⟨mode.kind, holes⟩⟩) :
    ∃ s : FirstStep mode holes pos (c :: rest), s.Follows :=
  ⟨⟨[c], rest, true, [], mode, holes, stop, rfl, hstop, .inside _ ⟨c, .inl rfl⟩ hmode,
    hfits.mono (by omega), hscan⟩, Or.inl ⟨c, rfl, hstep⟩⟩

/-- A character that ends a literal or comment. -/
theorem exists_firstStep_closed {mode : ScanMode} (hmode : mode.start? = some start)
    (hsize : c.utf8Size = 1)
    (hscan : ∀ front, scan mode holes pos (c :: front)
      = ⟨start, pos⟩ :: scan .code holes (pos + 1) front)
    (hstep : ScanState.step ⟨mode.kind, holes⟩ c rest.head? = ⟨false, false, ⟨.code, holes⟩⟩) :
    ∃ s : FirstStep mode holes pos (c :: rest), s.Follows := by
  refine ⟨⟨[c], rest, false, [⟨start, pos⟩], .code, holes, pos + 1, rfl, ?_, .closed c hmode,
    trivial, fun front _ => hscan front⟩, Or.inl ⟨c, rfl, hstep⟩⟩
  simp [hsize]

theorem exists_firstStep_quoted {quote : Char}
    (hfits : (ScanMode.quoted quote start).Fits pos) :
    ∃ s : FirstStep (.quoted quote start) holes pos (c :: rest), s.Follows := by
  by_cases hescape : c = '\\'
  · subst hescape
    refine exists_firstStep_escape holes pos rest rfl hfits ?_ (fun d text => ?_) fun _ => rfl
    · rw [scan.eq_def]
      simp
    · rw [scan.eq_def]
      simp
  by_cases hclose : c = '\n' ∨ c = quote
  · refine exists_firstStep_closed holes pos c rest rfl ?_ (fun front => ?_) ?_
    · rcases hclose with rfl | rfl
      · rfl
      · rcases hfits.1 with rfl | rfl <;> rfl
    · rw [scan.eq_def]
      simp only [if_neg hescape, if_pos hclose]
    · simp only [ScanState.step, ScanMode.kind, if_neg hescape, if_pos hclose]
  · refine exists_firstStep_inside holes pos c rest rfl hfits rfl (fun front _ => ?_) ?_
    · rw [scan.eq_def]
      simp only [if_neg hescape, if_neg hclose]
    · simp only [ScanState.step, ScanMode.kind, if_neg hescape, if_neg hclose]

theorem exists_firstStep_template (hfits : (ScanMode.template start).Fits pos) :
    ∃ s : FirstStep (.template start) holes pos (c :: rest), s.Follows := by
  by_cases hescape : c = '\\'
  · subst hescape
    refine exists_firstStep_escape holes pos rest rfl hfits ?_ (fun d text => ?_) fun _ => rfl
    · rw [scan.eq_def]
      simp
    · rw [scan.eq_def]
      simp
  by_cases hclose : c = '\x60'
  · subst hclose
    refine exists_firstStep_closed holes pos _ rest rfl rfl (fun front => ?_) rfl
    rw [scan.eq_def]
    simp
  by_cases hdollar : c = '$'
  · subst hdollar
    by_cases hhole : ∃ r, rest = '{' :: r
    · obtain ⟨r, rfl⟩ := hhole
      refine ⟨⟨['$', '{'], r, false, [⟨start, pos⟩], .code, 0 :: holes, pos + 2, rfl, rfl,
        .openedHole rfl, trivial, fun front _ => ?_⟩, Or.inr ⟨_, _, rfl, rfl⟩⟩
      rw [scan.eq_def]
      simp
    · have hstop : pos + 1 = pos + '$'.utf8Size := rfl
      refine exists_firstStep_inside holes pos _ rest rfl hfits hstop (fun front hfront => ?_) ?_
      · have hhole := ne_cons_of_prefix hfront hhole
        rw [scan.eq_def]
        simp
      · simp [ScanState.step, ScanMode.kind, head?_ne_of_ne_cons hhole]
  · refine exists_firstStep_inside holes pos c rest rfl hfits rfl (fun front _ => ?_) ?_
    · rw [scan.eq_def]
      simp only [if_neg hescape, if_neg hclose, if_neg hdollar]
    · simp [ScanState.step, ScanMode.kind, hescape, hclose, hdollar]

theorem exists_firstStep_lineComment (hfits : (ScanMode.lineComment start).Fits pos) :
    ∃ s : FirstStep (.lineComment start) holes pos (c :: rest), s.Follows := by
  by_cases hclose : c = '\n'
  · subst hclose
    refine exists_firstStep_closed holes pos _ rest rfl rfl (fun front => ?_) rfl
    rw [scan.eq_def]
    simp
  · refine exists_firstStep_inside holes pos c rest rfl hfits rfl (fun front _ => ?_) ?_
    · rw [scan.eq_def]
      simp only [if_neg hclose]
    · simp only [ScanState.step, ScanMode.kind, if_neg hclose]

theorem exists_firstStep_blockComment (hfits : (ScanMode.blockComment start).Fits pos) :
    ∃ s : FirstStep (.blockComment start) holes pos (c :: rest), s.Follows := by
  by_cases hstar : c = '*'
  · subst hstar
    by_cases hclose : ∃ r, rest = '/' :: r
    · obtain ⟨r, rfl⟩ := hclose
      refine ⟨⟨['*', '/'], r, true, [⟨start, pos + 2⟩], .code, holes, pos + 2, rfl, rfl,
        .closedComment rfl, trivial, fun front _ => ?_⟩, Or.inr ⟨_, _, rfl, rfl⟩⟩
      rw [scan.eq_def]
      simp
    · have hstop : pos + 1 = pos + '*'.utf8Size := rfl
      refine exists_firstStep_inside holes pos _ rest rfl hfits hstop (fun front hfront => ?_) ?_
      · have hclose := ne_cons_of_prefix hfront hclose
        rw [scan.eq_def]
        simp
      · simp [ScanState.step, ScanMode.kind, head?_ne_of_ne_cons hclose]
  · refine exists_firstStep_inside holes pos c rest rfl hfits rfl (fun front _ => ?_) ?_
    · rw [scan.eq_def]
      simp only [if_neg hstar]
    · simp [ScanState.step, ScanMode.kind, hstar]

end Inside

/-- Every scan of a text that is not empty begins with a step, which is the one that the scanner
makes without its offsets. -/
theorem exists_firstStep_follows {mode : ScanMode} (hfits : mode.Fits pos) :
    ∃ s : FirstStep mode holes pos (c :: rest), s.Follows := by
  cases mode with
  | code => exact exists_firstStep_code holes pos c rest
  | quoted quote start => exact exists_firstStep_quoted holes pos c rest hfits
  | template start => exact exists_firstStep_template holes pos c rest hfits
  | lineComment start => exact exists_firstStep_lineComment holes pos c rest hfits
  | blockComment start => exact exists_firstStep_blockComment holes pos c rest hfits

theorem exists_firstStep {mode : ScanMode} (hfits : mode.Fits pos) :
    Nonempty (FirstStep mode holes pos (c :: rest)) :=
  (exists_firstStep_follows holes pos c rest hfits).nonempty

end LiteralSpans
end SourceRepair
