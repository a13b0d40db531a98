import SourceRepair.Proofs.Literal.Comments
import SourceRepair.Proofs.Literal.Masks

/-!
# The borders between code and literals

Two characters of a text that stand next to each other are both covered, or both not, unless one of
them marks the border between code and a literal or comment: `enters` and `leaves` list the marks
for the two ways to cross it. So a stretch of text without such marks is all code or all literal,
as its first character is: `covers_eq_of_unmarked`.
-/

namespace SourceRepair

open Text

namespace LiteralSpans

variable {mode : ScanMode} {holes : List Nat} {pos : Nat} {before after : List Char} {c d : Char}

/-- The character behind the one that a step reads is read by that step too, or it is the first one
of what the scan goes on with. -/
theorem StepReading.covers_next (r : StepReading mode holes pos before c (d :: after)) :
    (∃ back, r.back = d :: back ∧
      Span.covers (scan mode holes pos (before ++ c :: d :: after))
        (pos + utf8Size before + c.utf8Size) = r.step.covered) ∨
    (r.back = [] ∧
      Span.covers (scan mode holes pos (before ++ c :: d :: after))
          (pos + utf8Size before + c.utf8Size)
        = Span.covers (scan r.step.next r.step.nextHoles (pos + utf8Size before + c.utf8Size)
            (d :: after)) (pos + utf8Size before + c.utf8Size)) := by
  have hplace := r.place_eq
  have hstop := r.step.stop_eq
  rw [r.token_eq, utf8Size_append, utf8Size_cons] at hstop
  cases hback : r.back with
  | nil =>
    refine Or.inr ⟨rfl, ?_⟩
    rw [hback, utf8Size_nil] at hstop
    rw [r.scan_behind hback, Span.covers_append_of_stop_le fun span hspan => ?_]
    rcases List.mem_append.mp hspan with hspan | hspan
    · have hended := r.stop_le_of_mem span hspan
      omega
    · have hended := r.step.stop_le_of_mem hspan
      omega
  | cons e back =>
    have hafter := r.after_eq
    rw [hback] at hafter
    obtain ⟨rfl, -⟩ := List.cons.inj hafter
    refine Or.inl ⟨back, rfl, ?_⟩
    have hsize := d.utf8Size_pos
    rw [hback, utf8Size_cons] at hstop
    have hle : r.place ≤ pos + utf8Size before + c.utf8Size := by omega
    rw [r.scan_eq, Span.covers_append_of_stop_le fun span hspan =>
      Nat.le_trans (r.stop_le_of_mem span hspan) hle]
    exact r.step.covers_token r.fits hle (by omega)

/-! ## From code into literals -/

/-- The characters behind which a literal can begin. -/
def entrances : List Char :=
  ['\'', '"', '\x60', '}']

/-- Behind a step in code that does not open a literal the scanner stands in code. -/
theorem Step.mem_entrances_or_next_eq {next : ScanMode} {token : List Char} {spans : List Span}
    (h : Step pos mode token false spans next) (htoken : token = before ++ [c]) :
    c ∈ entrances ∨ next = .code := by
  cases h with
  | code | closed | openedHole => exact Or.inr rfl
  | opened e he =>
    obtain ⟨rfl, -, -⟩ := eq_of_singleton_eq_append htoken
    left
    rcases he with rfl | rfl | rfl | rfl <;> decide

/-- Between a character of code and a covered one stands an entrance, or a comment begins. -/
theorem scan_enters (hfits : mode.Fits pos)
    (hc : Span.covers (scan mode holes pos (before ++ c :: d :: after)) (pos + utf8Size before)
      = false)
    (hd : Span.covers (scan mode holes pos (before ++ c :: d :: after))
      (pos + utf8Size before + c.utf8Size) = true) :
    c ∈ entrances ∨ d = '/' := by
  obtain ⟨r⟩ := exists_stepReading holes hfits before c (d :: after)
  have hsize := c.utf8Size_pos
  have hstep := r.step.step
  rw [r.covers_eq (Nat.le_refl _) (by omega)] at hc
  rw [hc] at hstep
  rcases r.covers_next with ⟨back, -, hcovers⟩ | ⟨hback, hcovers⟩
  · rw [hcovers, hc] at hd
    exact absurd hd Bool.false_ne_true
  · have htoken := r.token_eq
    rw [hback] at htoken
    rcases hstep.mem_entrances_or_next_eq htoken with hmem | hnext
    · exact Or.inl hmem
    · rw [hcovers, hnext] at hd
      exact Or.inr (exists_of_covers_code hd).1

/-! ## From literals into code -/

/-- The characters that end a literal or comment without belonging to it. -/
def exits : List Char :=
  ['\'', '"', '\x60', '\n']

/-- Behind a covered step the scanner stands in code only if a block comment ends there. -/
theorem Step.eq_slash_or_start?_eq_some {next : ScanMode} {token : List Char} {spans : List Span}
    (h : Step pos mode token true spans next) (htoken : token = before ++ [c]) :
    c = '/' ∨ ∃ start, next.start? = some start := by
  cases h with
  | openedComment _ _ hmode | inside _ _ hmode => exact Or.inr ⟨_, hmode⟩
  | closedComment =>
    rcases eq_of_pair_eq_append htoken with rfl | ⟨rfl, -⟩
    · exact absurd htoken (by rcases before with _ | ⟨_, _ | ⟨_, _⟩⟩ <;> simp)
    · exact Or.inl rfl

/-- The mask of a text begins with what the first step says. -/
theorem head?_mask (s : ScanState) (c : Char) (rest : List Char) :
    (s.mask (c :: rest))[0]? = some (s.step c rest.head?).covered := by
  cases rest with
  | nil => rfl
  | cons d rest =>
    rw [ScanState.mask]
    split <;> rfl

/-- A character of code where a literal or comment is open ends it. -/
theorem mem_exits_of_covers_eq_false {start : Nat} (hfits : mode.Fits pos)
    (hmode : mode.start? = some start)
    (h : Span.covers (scan mode holes pos (d :: after)) pos = false) :
    d ∈ exits ∨ (d = '$' ∧ after.head? = some '{') := by
  have hmask : (ScanState.mask ⟨mode.kind, holes⟩ ([] ++ d :: after))[0]? = _ :=
    getElem?_mask hfits [] d after
  rw [List.nil_append, head?_mask, utf8Size_nil, Nat.add_zero, h] at hmask
  replace hmask := Option.some.inj hmask
  by_contra hno
  simp only [exits, List.mem_cons, List.not_mem_nil, or_false, not_or, not_and] at hno
  cases mode with
  | code => exact absurd hmode (by simp [ScanMode.start?])
  | quoted quote start =>
    have hquote : d ≠ quote := by rcases hfits.1 with rfl | rfl <;> simp [hno]
    by_cases hescape : d = '\\' <;> simp_all [ScanState.step, ScanMode.kind]
  | template start =>
    have hhole : ¬(d = '$' ∧ after.head? = some '{') := fun h => hno.2 h.1 h.2
    by_cases hescape : d = '\\' <;> simp_all [ScanState.step, ScanMode.kind]
  | lineComment start => simp_all [ScanState.step, ScanMode.kind]
  | blockComment start =>
    simp only [ScanState.step, ScanMode.kind] at hmask
    split at hmask <;> exact absurd hmask (by simp)

/-- Between a covered character and one of code a block comment ends, or the latter ends what the
former belongs to. -/
theorem scan_leaves (hfits : mode.Fits pos)
    (hc : Span.covers (scan mode holes pos (before ++ c :: d :: after)) (pos + utf8Size before)
      = true)
    (hd : Span.covers (scan mode holes pos (before ++ c :: d :: after))
      (pos + utf8Size before + c.utf8Size) = false) :
    c = '/' ∨ d ∈ exits ∨ (d = '$' ∧ after.head? = some '{') := by
  obtain ⟨r⟩ := exists_stepReading holes hfits before c (d :: after)
  have hsize := c.utf8Size_pos
  have hstep := r.step.step
  rw [r.covers_eq (Nat.le_refl _) (by omega)] at hc
  rw [hc] at hstep
  rcases r.covers_next with ⟨back, -, hcovers⟩ | ⟨hback, hcovers⟩
  · rw [hcovers, hc] at hd
    exact absurd hd.symm Bool.false_ne_true
  · have htoken := r.token_eq
    have hplace := r.place_eq
    have hstop := r.step.stop_eq
    rw [r.token_eq, hback, utf8Size_append, utf8Size_cons, utf8Size_nil] at hstop
    rw [hback] at htoken
    rcases hstep.eq_slash_or_start?_eq_some htoken with hslash | ⟨start, hnext⟩
    · exact Or.inl hslash
    · have hbehind : r.step.stop = pos + utf8Size before + c.utf8Size := by omega
      rw [hcovers] at hd
      exact Or.inr (mem_exits_of_covers_eq_false (hbehind ▸ r.step.next_fits) hnext hd)

/-! ## Stretches without marks -/

section Text

variable {text : List Char}

/-- From code into a literal or comment a text goes behind an entrance, or a comment begins. -/
theorem enters (htext : text = before ++ c :: d :: after)
    (hc : Span.covers (literalSpans text) (utf8Size before) = false)
    (hd : Span.covers (literalSpans text) (utf8Size before + c.utf8Size) = true) :
    c ∈ entrances ∨ d = '/' := by
  have hfits : ScanMode.code.Fits 0 := trivial
  rw [htext, ← Nat.zero_add (utf8Size before)] at hc hd
  exact scan_enters hfits hc hd

/-- From a literal or comment into code a text goes with an exit, or behind the end of a block
comment. -/
theorem leaves (htext : text = before ++ c :: d :: after)
    (hc : Span.covers (literalSpans text) (utf8Size before) = true)
    (hd : Span.covers (literalSpans text) (utf8Size before + c.utf8Size) = false) :
    c = '/' ∨ d ∈ exits ∨ (d = '$' ∧ after.head? = some '{') := by
  have hfits : ScanMode.code.Fits 0 := trivial
  rw [htext, ← Nat.zero_add (utf8Size before)] at hc hd
  exact scan_leaves hfits hc hd

/-- All bytes of a character are covered alike. -/
theorem covers_of_mem_char (htext : text = before ++ c :: after) {offset : Nat}
    (hlow : utf8Size before ≤ offset) (hhigh : offset < utf8Size before + c.utf8Size) :
    Span.covers (literalSpans text) offset = Span.covers (literalSpans text) (utf8Size before) := by
  have hfits : ScanMode.code.Fits 0 := trivial
  have hall := covers_char [] hfits after (show 0 + utf8Size before ≤ offset by omega)
    (show offset < 0 + utf8Size before + c.utf8Size by omega)
  rwa [Nat.zero_add, ← htext] at hall

/-- The word holds no mark of a border between code and literals, and opens no template hole. -/
structure Unmarked (word : List Char) : Prop where
  forall_mem : ∀ c ∈ word, c ∉ entrances ∧ c ∉ exits ∧ c ≠ '/'
  hole : '$' ∉ word ∨ '{' ∉ word
  last : word.getLast? ≠ some '$'

theorem Unmarked.tail {word : List Char} (h : Unmarked (c :: d :: word)) :
    Unmarked (d :: word) where
  forall_mem := (List.forall_mem_cons.mp h.forall_mem).2
  hole := h.hole.imp (fun h hmem => h (List.mem_cons_of_mem c hmem))
    fun h hmem => h (List.mem_cons_of_mem c hmem)
  last := by simpa using h.last

/-- A word without marks is all code or all literal. -/
theorem covers_eq_of_unmarked {word : List Char} (h : Unmarked word)
    (htext : text = before ++ (word ++ after)) {offset : Nat} (hlow : utf8Size before ≤ offset)
    (hhigh : offset < utf8Size before + utf8Size word) :
    Span.covers (literalSpans text) offset = Span.covers (literalSpans text) (utf8Size before) := by
  induction word generalizing before with
  | nil =>
    rw [utf8Size_nil] at hhigh
    omega
  | cons c rest ih =>
    by_cases hfirst : offset < utf8Size before + c.utf8Size
    · exact covers_of_mem_char htext hlow hfirst
    · rw [utf8Size_cons] at hhigh
      cases rest with
      | nil =>
        rw [utf8Size_nil] at hhigh
        omega
      | cons d rest =>
        have hplace : utf8Size (before ++ [c]) = utf8Size before + c.utf8Size := by
          rw [utf8Size_append, utf8Size_cons, utf8Size_nil, Nat.add_zero]
        have hrest := ih h.tail
          (show text = (before ++ [c]) ++ (d :: rest ++ after) by simpa using htext)
          (by omega) (by omega)
        obtain ⟨hc, hd⟩ := List.forall_mem_cons.mp h.forall_mem
        obtain ⟨hdEnter, hdExit, hdSlash⟩ := hd d List.mem_cons_self
        rw [hrest, hplace]
        -- the next character is covered if and only if this one is
        cases hhere : Span.covers (literalSpans text) (utf8Size before) with
        | false =>
          rw [← Bool.not_eq_true]
          intro hnext
          rcases enters htext hhere hnext with hmem | hslash
          · exact hc.1 hmem
          · exact hdSlash hslash
        | true =>
          rw [← Bool.not_eq_false]
          intro hnext
          rcases leaves htext hhere hnext with hslash | hmem | ⟨rfl, hhole⟩
          · exact hc.2.2 hslash
          · exact hdExit hmem
          · cases rest with
            | nil => exact absurd rfl h.tail.last
            | cons e rest =>
              obtain rfl := Option.some.inj hhole
              rcases h.hole with hno | hno <;> exact hno (by simp)

end Text

end LiteralSpans
end SourceRepair
