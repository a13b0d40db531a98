import SourceRepair.Proofs.Literal.Composition

/-!
# Where a text leaves the scanner

A text leaves the scanner in code if all of its literals and comments have ended before it does. The
spans tell (`kind_after_eq_code_iff`): one that is open runs up to the end of the text, and the
others end in front of what closes them. A block comment is the exception, since its last two
characters belong to it, so the texts considered have none.

In a text without quotes, escapes and holes only backticks count: it ends in code if there is an
even number of them (`kind_after_of_hasOnlyTemplates`). A text between two quotes is one literal
that ends at the second quote (`scan_code_quoted`), unless it ends in a backslash that is not itself
behind a backslash.
-/

namespace SourceRepair

open Text

namespace ScanState

variable {s : ScanState} {c d : Char} {ahead : Option Char}

/-- A block comment is opened by its two characters. -/
theorem eq_of_opens_blockComment (hkind : s.kind ≠ .blockComment)
    (h : (s.step c ahead).next.kind = .blockComment) : c = '/' ∧ ahead = some '*' := by
  obtain ⟨kind, holes⟩ := s
  cases kind with
  | blockComment => exact absurd rfl hkind
  | code =>
    rcases holes with _ | ⟨_ | depth, outer⟩
    all_goals
      simp only [step] at h
      repeat' split at h
      all_goals simp_all
  | quoted | template | lineComment =>
    simp only [step] at h
    repeat' split at h
    all_goals simp_all

/-- Elsewhere a star and a slash are not read as one. -/
theorem readsNext_star_slash (hkind : s.kind ≠ .blockComment) :
    (s.step '*' (some '/')).readsNext = false := by
  obtain ⟨kind, holes⟩ := s
  cases kind with
  | blockComment => exact absurd rfl hkind
  | code => simp [step]
  | quoted | template | lineComment =>
    simp only [step]
    repeat' split
    all_goals simp_all

end ScanState

namespace LiteralSpans

variable {mode : ScanMode} {pos : Nat} {text : List Char}

/-- Outside of block comments, what ends in a step ends in front of the last character read. -/
theorem FirstStep.Follows.stop_lt_of_mem {holes : List Nat} {s : FirstStep mode holes pos text}
    (hs : s.Follows) (hkind : mode.kind ≠ .blockComment) :
    ∀ span ∈ s.spans, span.stop < s.stop := by
  have hlt := s.pos_lt_stop
  have hstep := s.step
  intro span hspan
  generalize hspans : s.spans = spans at hstep hspan
  generalize htoken : s.token = token at hstep
  generalize hcovered : s.covered = covered at hstep
  generalize hnext : s.next = next at hstep
  cases hstep with
  | code | opened | openedComment | inside => exact absurd hspan List.not_mem_nil
  | closed | openedHole => rwa [List.mem_singleton.mp hspan]
  | closedComment =>
    exfalso
    rcases hs with ⟨c, hsingle, -⟩ | ⟨c, d, hpair, hread⟩
    · exact absurd (htoken.symm.trans hsingle) (by simp)
    · obtain ⟨rfl, hrest⟩ := List.cons.inj (htoken.symm.trans hpair)
      obtain ⟨rfl, -⟩ := List.cons.inj hrest
      have hstate : (ScanState.mk mode.kind holes).kind ≠ .blockComment := hkind
      have hsingle := ScanState.readsNext_star_slash hstate
      rw [hread] at hsingle
      exact absurd hsingle (by simp)

/-- A step opens a block comment only with the two characters that do. -/
theorem FirstStep.Follows.next_kind_ne_blockComment {holes : List Nat}
    {s : FirstStep mode holes pos text} (hs : s.Follows) (hkind : mode.kind ≠ .blockComment)
    (hfree : ¬['/', '*'] <:+: text) : s.next.kind ≠ .blockComment := by
  intro hopens
  have hstate : (ScanState.mk mode.kind holes).kind ≠ .blockComment := hkind
  rcases hs with ⟨c, htoken, hstep⟩ | ⟨c, d, htoken, hstep⟩
  · obtain ⟨rfl, hahead⟩ := ScanState.eq_of_opens_blockComment hstate
      (by rw [hstep]; exact hopens)
    obtain ⟨back, hback⟩ := List.head?_eq_some_iff.mp hahead
    exact hfree ⟨[], back, by rw [s.text_eq, htoken, hback]; rfl⟩
  · obtain ⟨rfl, hahead⟩ := ScanState.eq_of_opens_blockComment hstate
      (by rw [hstep]; exact hopens)
    obtain rfl := Option.some.inj hahead
    exact hfree ⟨[], s.rest, by rw [← htoken]; exact s.text_eq.symm⟩

/-- The scanner stands in code behind a text without block comments if everything in the text has
ended before. -/
theorem kind_after_eq_code_iff (holes : List Nat) (hfits : mode.Fits pos)
    (hkind : mode.kind ≠ .blockComment) (hfree : ¬['/', '*'] <:+: text) :
    (ScanState.after ⟨mode.kind, holes⟩ text).kind = .code ↔
      ∀ span ∈ scan mode holes pos text, span.stop < pos + utf8Size text := by
  revert hkind hfree
  refine scan_induction_follows (motive := fun mode holes pos text =>
    mode.kind ≠ .blockComment → ¬['/', '*'] <:+: text →
    ((ScanState.after ⟨mode.kind, holes⟩ text).kind = .code ↔
      ∀ span ∈ scan mode holes pos text, span.stop < pos + utf8Size text))
    ?nil ?step holes text hfits
  case nil =>
    intro mode holes pos _ _ _
    rw [scan_nil]
    cases mode with
    | code => simp [ScanMode.kind, ScanMode.start?]
    | quoted | template | lineComment | blockComment => simp [ScanMode.kind, ScanMode.start?]
  case step =>
    intro mode holes pos text s hs hfits ih hkind hfree
    have hrest : s.rest <:+ text := ⟨s.token, s.text_eq.symm⟩
    have hnext := hs.next_kind_ne_blockComment hkind hfree
    have hafter := hs.after_append (List.prefix_refl s.rest)
    have hend : pos + utf8Size text = s.stop + utf8Size s.rest := by
      rw [congrArg utf8Size s.text_eq, utf8Size_append, s.stop_eq, Nat.add_assoc]
    rw [← s.text_eq] at hafter
    rw [hafter, ih hnext fun h => hfree (h.trans hrest.isInfix), s.scan_rest, hend,
      List.forall_mem_append]
    exact (and_iff_right fun span hspan =>
      Nat.lt_of_lt_of_le (hs.stop_lt_of_mem hkind span hspan) (Nat.le_add_right _ _)).symm

/-! ## Texts with no literals but templates -/

/-- A text without quotes, escapes and template holes. -/
def HasOnlyTemplates (text : List Char) : Prop :=
  (∀ c ∈ text, c ≠ '\'' ∧ c ≠ '"' ∧ c ≠ '\\') ∧ ¬['$', '{'] <:+: text

/-- In such a text without comments the scanner goes from code into a template literal and back at
each backtick, and stays where it is at all other characters. -/
theorem kind_after_of_hasOnlyTemplates (hplain : HasOnlyTemplates text)
    (hline : ¬['/', '/'] <:+: text) (hblock : ¬['/', '*'] <:+: text) :
    ((ScanState.after ⟨.code, []⟩ text).kind = .code ↔ text.count '\x60' % 2 = 0) ∧
      ((ScanState.after ⟨.template, []⟩ text).kind = .code ↔ text.count '\x60' % 2 = 1) := by
  induction text with
  | nil => simp
  | cons c rest ih =>
    obtain ⟨hmarks, hhole⟩ := hplain
    obtain ⟨⟨hsingle, hdouble, hescape⟩, hmarks⟩ := List.forall_mem_cons.mp hmarks
    have hsuffix : rest <:+: c :: rest := (List.suffix_cons c rest).isInfix
    have hpair : ∀ d, rest.head? = some d → [c, d] <:+: c :: rest := by
      intro d hd
      obtain ⟨back, rfl⟩ := List.head?_eq_some_iff.mp hd
      exact ⟨[], back, rfl⟩
    obtain ⟨ihcode, ihtemplate⟩ := ih ⟨hmarks, fun h => hhole (h.trans hsuffix)⟩
      (fun h => hline (h.trans hsuffix)) fun h => hblock (h.trans hsuffix)
    by_cases htick : c = '\x60'
    · subst htick
      have hcode : ScanState.after ⟨.code, []⟩ ('\x60' :: rest)
          = ScanState.after ⟨.template, []⟩ rest := ScanState.after_cons rest rfl
      have htemplate : ScanState.after ⟨.template, []⟩ ('\x60' :: rest)
          = ScanState.after ⟨.code, []⟩ rest := ScanState.after_cons rest rfl
      rw [hcode, htemplate, ihcode, ihtemplate, List.count_cons_self]
      omega
    · have hcode : ScanState.step ⟨.code, []⟩ c rest.head? = ⟨false, false, ⟨.code, []⟩⟩ := by
        have hslash : ¬(c = '/' ∧ rest.head? = some '/') := by
          rintro ⟨rfl, hd⟩
          exact hline (hpair '/' hd)
        have hstar : ¬(c = '/' ∧ rest.head? = some '*') := by
          rintro ⟨rfl, hd⟩
          exact hblock (hpair '*' hd)
        simp [ScanState.step, hsingle, hdouble, htick, hslash, hstar]
      have htemplate : ScanState.step ⟨.template, []⟩ c rest.head?
          = ⟨true, false, ⟨.template, []⟩⟩ := by
        have hdollar : ¬(c = '$' ∧ rest.head? = some '{') := by
          rintro ⟨rfl, hd⟩
          exact hhole (hpair '{' hd)
        simp [ScanState.step, hescape, htick, hdollar]
      rw [ScanState.after_cons rest (by rw [hcode]), hcode,
        ScanState.after_cons rest (by rw [htemplate]), htemplate,
        List.count_cons_of_ne htick]
      exact ⟨ihcode, ihtemplate⟩

/-! ## Quoted texts -/

/-- The text ends in a backslash that takes the character behind it along: in an odd number of
backslashes. -/
def EndsInEscape (text : List Char) : Prop :=
  (text.reverse.takeWhile (· == '\\')).length % 2 = 1

instance (text : List Char) : Decidable (EndsInEscape text) :=
  inferInstanceAs (Decidable (_ = _))

theorem endsInEscape_cons {c : Char} (hc : c ≠ '\\') (rest : List Char) :
    EndsInEscape (c :: rest) ↔ EndsInEscape rest := by
  have hnone : [c].takeWhile (· == '\\') = [] := List.takeWhile_cons_of_neg (by simpa using hc)
  rw [EndsInEscape, EndsInEscape, List.reverse_cons, List.takeWhile_append, hnone, List.append_nil]
  split
  · rename_i hall
    rw [(List.takeWhile_prefix _).eq_of_length hall]
  · rfl

/-- A backslash and the character behind it do not count for what follows them. -/
theorem endsInEscape_cons_cons (d : Char) (rest : List Char) :
    EndsInEscape ('\\' :: d :: rest) ↔ EndsInEscape rest := by
  rw [EndsInEscape, EndsInEscape, List.reverse_cons, List.reverse_cons, List.append_assoc,
    List.takeWhile_append]
  split
  · rename_i hall
    rw [(List.takeWhile_prefix _).eq_of_length hall, List.length_append]
    by_cases hd : d = '\\'
    · subst hd
      simp
    · simp [hd]
  · rfl

variable {quote : Char} {body : List Char}

/-- What stands between two quotes is one literal, and behind the second quote the scanner is in
code again, if the text between them does not take that quote along. -/
theorem scan_quoted (hfree : ∀ c ∈ body, c ≠ quote ∧ c ≠ '\n') (hquote : quote ≠ '\\')
    (hescape : ¬EndsInEscape body) (start : Nat) (holes : List Nat) (pos : Nat)
    (back : List Char) :
    scan (.quoted quote start) holes pos (body ++ quote :: back)
        = ⟨start, pos + utf8Size body⟩ :: scan .code holes (pos + utf8Size body + 1) back ∧
      ScanState.after ⟨.quoted quote, holes⟩ (body ++ quote :: back)
        = ScanState.after ⟨.code, holes⟩ back := by
  induction hlength : body.length using Nat.strongRecOn generalizing body pos with
  | _ n ih =>
    subst hlength
    rcases body with _ | ⟨c, rest⟩
    · rw [List.nil_append]
      constructor
      · rw [scan.eq_def]
        simp [hquote]
      · have hstep : ScanState.step ⟨.quoted quote, holes⟩ quote back.head?
            = ⟨false, false, ⟨.code, holes⟩⟩ := by simp [ScanState.step, hquote]
        rw [ScanState.after_cons back (by rw [hstep]), hstep]
    · obtain ⟨⟨hc, hfeed⟩, hrest⟩ := List.forall_mem_cons.mp hfree
      by_cases hbackslash : c = '\\'
      · subst hbackslash
        rcases rest with _ | ⟨d, rest⟩
        · exact absurd rfl hescape
        · -- the backslash and what is behind it are read in one step
          obtain ⟨-, hrest⟩ := List.forall_mem_cons.mp hrest
          rw [endsInEscape_cons_cons] at hescape
          obtain ⟨hscan, hafter⟩ := ih _ (by simp) hrest hescape (pos + 1 + d.utf8Size) rfl
          have hsize : pos + 1 + d.utf8Size + utf8Size rest
              = pos + utf8Size ('\\' :: d :: rest) := by
            simp only [utf8Size_cons, ← Nat.add_assoc]
            rfl
          rw [List.cons_append, List.cons_append]
          constructor
          · rw [scan.eq_def, ← hsize]
            simpa using hscan
          · rw [ScanState.after_cons_cons rfl]
            exact hafter
      · rw [endsInEscape_cons hbackslash] at hescape
        obtain ⟨hscan, hafter⟩ := ih _ (by simp) hrest hescape (pos + c.utf8Size) rfl
        have hstep : ∀ ahead, ScanState.step ⟨.quoted quote, holes⟩ c ahead
            = ⟨true, false, ⟨.quoted quote, holes⟩⟩ := by
          simp [ScanState.step, hbackslash, hfeed, hc]
        rw [List.cons_append]
        constructor
        · rw [scan.eq_def, utf8Size_cons, ← Nat.add_assoc]
          simpa only [hbackslash, hfeed, hc, if_false, or_self] using hscan
        · rw [ScanState.after_cons _ (by rw [hstep]), hstep]
          exact hafter

/-- A quoted text in code is one literal, and the scanner is in code behind it. -/
theorem scan_code_quoted (hmark : quote = '\'' ∨ quote = '"')
    (hfree : ∀ c ∈ body, c ≠ quote ∧ c ≠ '\n') (hescape : ¬EndsInEscape body)
    (holes : List Nat) (pos : Nat) (back : List Char) :
    scan .code holes pos (quote :: (body ++ quote :: back))
        = ⟨pos + 1, pos + 1 + utf8Size body⟩
          :: scan .code holes (pos + 1 + utf8Size body + 1) back ∧
      ScanState.after ⟨.code, holes⟩ (quote :: (body ++ quote :: back))
        = ScanState.after ⟨.code, holes⟩ back := by
  have hquote : quote ≠ '\\' := by rcases hmark with rfl | rfl <;> decide
  obtain ⟨hscan, hafter⟩ := scan_quoted hfree hquote hescape (pos + 1) holes (pos + 1) back
  constructor
  · rw [scan.eq_def, ← hscan]
    simp only [if_pos hmark]
  · have hstep : ∀ ahead, ScanState.step ⟨.code, holes⟩ quote ahead
        = ⟨false, false, ⟨.quoted quote, holes⟩⟩ := by
      simp [ScanState.step, hmark]
    rw [ScanState.after_cons _ (by rw [hstep]), hstep]
    exact hafter

end LiteralSpans
end SourceRepair
