import SourceRepair.Proofs.Literal.Composition
import SourceRepair.Proofs.Text.Bytes
import SourceRepair.Rule.Literal

/-!
# Template holes

A hole of a template literal is code, and a text is read in it as it would be read alone. The two
readings differ in the braces that stand in code outside the holes of the text itself: alone they
mean nothing, and in a hole they are counted, so that the hole ends at the first one that closes
more than was opened. Of a text in which none does (`SelfContained`) both readings cover the same
characters. This is shown step by step (`ScanState.step_within`), where the scanner in the hole is
the other one with further holes below its own, and then for whole texts (`ScanState.mask_within`).
-/

namespace SourceRepair

open Text

namespace ScanState

variable {s : ScanState} {c : Char} {depth : Nat} {outer : List Nat}

/-! ## The scanner in a hole -/

/-- The same scanner in a hole with `depth` open braces, which lies in the holes `outer`. -/
def within (depth : Nat) (outer : List Nat) (s : ScanState) : ScanState :=
  ⟨s.kind, s.holes ++ depth :: outer⟩

/-- The character read, if it is a brace in code outside of all holes. -/
def outerBrace (s : ScanState) (c : Char) : List Char :=
  if s = initial ∧ (c = '{' ∨ c = '}') then [c] else []

/-- The braces of a text that stand in code outside of all holes. -/
def outerBraces (s : ScanState) : List Char → List Char
  | [] => []
  | [c] => s.outerBrace c
  | c :: d :: rest =>
    if (s.step c (some d)).readsNext then
      s.outerBrace c ++ outerBraces (s.step c (some d)).next rest
    else s.outerBrace c ++ outerBraces (s.step c (some d)).next (d :: rest)

/-- What the scanner makes of a character that is no such brace does not depend on the holes around
it. -/
theorem step_within (h : s.outerBrace c = []) (depth : Nat) (outer : List Nat)
    (ahead : Option Char) :
    (s.within depth outer).step c ahead = ⟨(s.step c ahead).covered, (s.step c ahead).readsNext,
      (s.step c ahead).next.within depth outer⟩ := by
  obtain ⟨kind, holes⟩ := s
  cases kind with
  | code =>
    rcases holes with _ | ⟨_ | inner, more⟩
    all_goals
      simp only [outerBrace, initial, step, within] at h ⊢
      repeat' split
      all_goals simp_all
  | quoted | template | lineComment | blockComment =>
    simp only [step, within]
    repeat' split
    all_goals simp_all

/-- With `depth` braces open in front of them, none of some braces closes more than is open. -/
def StaysOpen (depth : Nat) (braces : List Char) : Prop :=
  ∀ front, front <+: braces → front.count '}' ≤ depth + front.count '{'

theorem staysOpen_iff {braces : List Char} : StaysOpen depth braces ↔
    ∀ front ∈ braces.inits, front.count '}' ≤ depth + front.count '{' := by
  simp only [StaysOpen, List.mem_inits]

instance (depth : Nat) (braces : List Char) : Decidable (StaysOpen depth braces) :=
  decidable_of_iff _ staysOpen_iff.symm

/-- What holds of some braces holds of the last ones among them, with what the first ones leave
open. -/
theorem StaysOpen.behind {first more : List Char} {left : Nat}
    (h : StaysOpen depth (first ++ more))
    (hleft : left + first.count '}' = depth + first.count '{') : StaysOpen left more := by
  intro front hfront
  have hall := h (first ++ front) ((List.prefix_append_right_inj first).mpr hfront)
  rw [List.count_append, List.count_append] at hall
  omega

/-- A brace that is counted in the hole around the text changes nothing but the count. -/
theorem step_within_count {more : List Char} (h : StaysOpen depth (s.outerBrace c ++ more))
    (outer : List Nat) (ahead : Option Char) :
    ∃ left, (s.within depth outer).step c ahead = ⟨(s.step c ahead).covered,
        (s.step c ahead).readsNext, (s.step c ahead).next.within left outer⟩ ∧
      left + (s.outerBrace c).count '}' = depth + (s.outerBrace c).count '{' := by
  have hopen := h _ (List.prefix_append _ more)
  by_cases hbrace : s = initial ∧ (c = '{' ∨ c = '}')
  · obtain ⟨rfl, rfl | rfl⟩ := hbrace
    · exact ⟨depth + 1, rfl, rfl⟩
    · obtain ⟨left, rfl⟩ : ∃ left, depth = left + 1 := Nat.exists_eq_add_of_le' hopen
      exact ⟨left, rfl, rfl⟩
  · have hnone : s.outerBrace c = [] := if_neg hbrace
    exact ⟨depth, step_within hnone depth outer ahead, by rw [hnone]; rfl⟩

/-- In a hole a text covers what it covers alone, and leaves the scanner where it does alone, if no
brace of it closes the hole. -/
theorem mask_within {text : List Char} (outer : List Nat)
    (h : StaysOpen depth (s.outerBraces text)) :
    (s.within depth outer).mask text = s.mask text ∧
      ∃ left, (s.within depth outer).after text = (s.after text).within left outer ∧
        left + (s.outerBraces text).count '}' = depth + (s.outerBraces text).count '{' := by
  fun_induction outerBraces s text generalizing depth with
  | case1 s => exact ⟨rfl, depth, rfl, rfl⟩
  | case2 s c =>
    have hone : StaysOpen depth (s.outerBrace c ++ []) := by rwa [List.append_nil]
    obtain ⟨left, hstep, hleft⟩ := step_within_count hone outer none
    refine ⟨?_, left, ?_, hleft⟩
    · rw [mask, mask, hstep]
    · rw [after, after, hstep]
  | case3 s c d rest hread ih =>
    obtain ⟨left, hstep, hleft⟩ := step_within_count h outer (some d)
    obtain ⟨hmask, last, hafter, hlast⟩ := ih (h.behind hleft)
    have hread' : ((s.within depth outer).step c (some d)).readsNext = true := by rw [hstep, hread]
    refine ⟨?_, last, ?_, ?_⟩
    · rw [mask_cons_cons hread', mask_cons_cons hread, hstep, hmask]
    · rw [after_cons_cons hread', after_cons_cons hread, hstep, hafter]
    · rw [List.count_append, List.count_append]
      omega
  | case4 s c d rest hread ih =>
    obtain ⟨left, hstep, hleft⟩ := step_within_count h outer (some d)
    obtain ⟨hmask, last, hafter, hlast⟩ := ih (h.behind hleft)
    rw [Bool.not_eq_true] at hread
    have hread' : ((s.within depth outer).step c (some d)).readsNext = false := by
      rw [hstep, hread]
    refine ⟨?_, last, ?_, ?_⟩
    · rw [mask_cons (d :: rest) hread', mask_cons (d :: rest) hread, List.head?_cons, hstep, hmask]
    · rw [after_cons (d :: rest) hread', after_cons (d :: rest) hread, List.head?_cons, hstep,
        hafter]
    · rw [List.count_append, List.count_append]
      omega

end ScanState

/-! ## Texts for a hole -/

/-- A text that can stand in a hole: alone it leaves the scanner in code with no hole open, and its
braces outside of its own holes close each other. -/
structure SelfContained (text : List Char) : Prop where
  after_eq : ScanState.initial.after text = .initial
  staysOpen : ScanState.StaysOpen 0 (ScanState.initial.outerBraces text)
  count_eq : (ScanState.initial.outerBraces text).count '}'
    = (ScanState.initial.outerBraces text).count '{'

theorem selfContained_iff {text : List Char} : SelfContained text ↔
    ScanState.initial.after text = .initial ∧
      ScanState.StaysOpen 0 (ScanState.initial.outerBraces text) ∧
      (ScanState.initial.outerBraces text).count '}'
        = (ScanState.initial.outerBraces text).count '{' :=
  ⟨fun h => ⟨h.after_eq, h.staysOpen, h.count_eq⟩, fun ⟨hafter, hopen, hcount⟩ =>
    ⟨hafter, hopen, hcount⟩⟩

instance (text : List Char) : Decidable (SelfContained text) :=
  decidable_of_iff _ selfContained_iff.symm

namespace LiteralSpans

/-- A scan covers the bytes of the characters that the mask says are literal, wherever it starts. -/
theorem covers_scan_of_mask_eq {mode mode' : ScanMode} {holes holes' : List Nat} {pos pos' : Nat}
    {text : List Char} (hfits : mode.Fits pos) (hfits' : mode'.Fits pos')
    (hmask : ScanState.mask ⟨mode.kind, holes⟩ text = ScanState.mask ⟨mode'.kind, holes'⟩ text)
    {offset : Nat} (h : offset < utf8Size text) :
    Span.covers (scan mode holes pos text) (pos + offset)
      = Span.covers (scan mode' holes' pos' text) (pos' + offset) := by
  obtain ⟨before, c, after, rfl, hlow, hhigh⟩ := exists_char_of_lt h
  have hplace : (ScanState.mask ⟨mode.kind, holes⟩ (before ++ c :: after))[before.length]? = _ :=
    getElem?_mask hfits before c after
  have hplace' : (ScanState.mask ⟨mode'.kind, holes'⟩ (before ++ c :: after))[before.length]? = _ :=
    getElem?_mask hfits' before c after
  rw [hmask, hplace'] at hplace
  rw [covers_char holes hfits after (by omega) (by omega),
    covers_char holes' hfits' after (by omega) (by omega)]
  exact (Option.some.inj hplace).symm

end LiteralSpans

namespace SelfContained

open LiteralSpans

variable {text before behind : List Char} {holes : List Nat}

/-- Wherever the scanner stands in code, the text is read as it is read alone. -/
theorem mask_eq (h : SelfContained text) (holes : List Nat) :
    ScanState.mask ⟨.code, holes⟩ text = ScanState.initial.mask text ∧
      ScanState.after ⟨.code, holes⟩ text = ⟨.code, holes⟩ := by
  cases holes with
  | nil => exact ⟨rfl, h.after_eq⟩
  | cons depth outer =>
    have hopen : ScanState.StaysOpen depth (ScanState.initial.outerBraces text) :=
      fun front hfront => Nat.le_trans (h.staysOpen front hfront) (by omega)
    obtain ⟨hmask, left, hafter, hleft⟩ := ScanState.mask_within outer hopen
    rw [h.count_eq, Nat.add_right_cancel_iff] at hleft
    rw [h.after_eq, hleft] at hafter
    exact ⟨hmask, hafter⟩

/-- Where the text stands in code of another one, the same of it is covered as alone. -/
theorem covers_append (h : SelfContained text)
    (hbefore : ScanState.initial.after before = ⟨.code, holes⟩)
    (hstart : OpensNoComment before (text ++ behind)) (hend : OpensNoComment text behind)
    {offset : Nat} (hoffset : offset < utf8Size text) :
    Span.covers (literalSpans (before ++ (text ++ behind))) (utf8Size before + offset)
      = Span.covers (literalSpans text) offset := by
  have hfits : ∀ pos, ScanMode.code.Fits pos := fun _ => trivial
  obtain ⟨hmask, hafter⟩ := h.mask_eq holes
  have hstate : ScanState.after ⟨ScanMode.code.kind, holes⟩ text = ⟨.code, holes⟩ := hafter
  have hinner := (scan_append (hfits (utf8Size before)) (by rw [hstate]) hend).1
  rw [hstate] at hinner
  have hlate : ∀ span ∈ LiteralSpans.scan .code holes (utf8Size before + utf8Size text) behind,
      utf8Size before + offset < span.start := fun span hspan => by
    have := le_start_of_mem_scan_code hspan
    omega
  have hearly : ∀ span ∈ LiteralSpans.scan .code [] 0 before,
      span.stop ≤ utf8Size before + offset :=
    fun span hspan => by
      have := stop_le_of_mem_scan [] before (hfits 0) span hspan
      omega
  calc Span.covers (literalSpans (before ++ (text ++ behind))) (utf8Size before + offset)
      = Span.covers (LiteralSpans.scan .code holes (utf8Size before) (text ++ behind))
          (utf8Size before + offset) := by
        rw [literalSpans, (scan_code_append hbefore hstart).1,
          Span.covers_append_of_stop_le hearly]
    _ = Span.covers (LiteralSpans.scan .code holes (utf8Size before) text)
          (utf8Size before + offset) := by
        rw [hinner, Span.covers_append_of_lt_start hlate]
    _ = Span.covers (literalSpans text) (0 + offset) :=
        covers_scan_of_mask_eq (hfits _) (hfits 0) hmask hoffset
    _ = Span.covers (literalSpans text) offset := by rw [Nat.zero_add]

end SelfContained

/-! ## A template that is all hole -/

/-- The template literal that is nothing but a hole around a text. -/
def inHole (text : List Char) : List Char :=
  ['\x60', '$', '{'] ++ (text ++ ['}', '\x60'])

namespace LiteralSpans

/-- The two pieces of template text around the hole are empty, and all other spans are those of the
text in it. -/
theorem literalSpans_inHole {text : List Char} (h : SelfContained text) :
    literalSpans (inHole text)
      = ⟨1, 1⟩ :: (scan .code [0] 3 text
          ++ [⟨3 + utf8Size text + 1, 3 + utf8Size text + 1⟩]) := by
  have hfits : ScanMode.code.Fits 3 := trivial
  have hstate : ScanState.after ⟨ScanMode.code.kind, [0]⟩ text = ⟨.code, [0]⟩ := (h.mask_eq [0]).2
  have hend : OpensNoComment text ['}', '\x60'] := .of_head (by decide)
  have hinner := (scan_append hfits (by rw [hstate]) hend).1
  rw [hstate] at hinner
  have hopen : literalSpans (inHole text)
      = ⟨1, 1⟩ :: scan .code [0] 3 (text ++ ['}', '\x60']) := by
    simp [literalSpans, inHole, scan]
  have hclose : ∀ pos, scan .code [0] pos ['}', '\x60'] = [⟨pos + 1, pos + 1⟩] := by
    intro pos
    simp [scan, ScanMode.openSpan]
  rw [hopen, hinner, hclose]

/-- A text that can stand in a hole is read there as it is read alone, and the delimiters around the
hole are code. So in the code of any other text, in whatever holes that lies, a match in it counts
if it counts alone. -/
theorem covers_inHole {text : List Char} (h : SelfContained text) :
    (∀ offset < utf8Size text, Span.covers (literalSpans (inHole text)) (offset + 3)
      = Span.covers (literalSpans text) offset) ∧
    (∀ offset, offset < 3 ∨ utf8Size text + 3 ≤ offset →
      Span.covers (literalSpans (inHole text)) offset = false) ∧
    ∀ (rule : Rule) (before behind : List Char) (holes : List Nat),
      ScanState.initial.after before = ⟨.code, holes⟩ →
      OpensNoComment before (text ++ behind) → OpensNoComment text behind →
      ∀ inside ∈ rule.pattern.allMatches (before ++ (text ++ behind)),
      ∀ alone ∈ rule.pattern.allMatches text, alone.start < utf8Size text →
        inside.start = utf8Size before + alone.start →
        (inside ∈ rule.codeMatches (before ++ (text ++ behind)) ↔
          alone ∈ rule.codeMatches text) := by
  have hfits : ScanMode.code.Fits 3 := trivial
  refine ⟨fun offset hoffset => ?_, fun offset hoffset => ?_, ?_⟩
  · have hbefore : ScanState.initial.after ['\x60', '$', '{'] = ⟨.code, [0]⟩ := rfl
    rw [Nat.add_comm]
    exact h.covers_append hbefore (.of_last (by simp)) (.of_head (by decide)) hoffset
  · rw [covers_eq_false_iff, literalSpans_inHole h]
    intro span hspan
    rcases List.mem_cons.mp hspan with rfl | hspan
    · exact fun hin => Nat.not_lt.mpr hin.1 hin.2
    rcases List.mem_append.mp hspan with hspan | hspan
    · have hstart := le_start_of_mem_scan_code hspan
      have hstop := stop_le_of_mem_scan [0] text hfits span hspan
      omega
    · rw [List.mem_singleton.mp hspan]
      exact fun hin => Nat.not_lt.mpr hin.1 hin.2
  · intro rule before behind holes hbefore hstart hend inside hinside alone halone hlt hplace
    have hcovers := h.covers_append hbefore hstart hend hlt
    rw [← hplace] at hcovers
    simp only [Rule.codeMatches, List.mem_filter, hinside, halone, true_and, hcovers]

/-- A call with an object, with a brace and commas in a string and with a template that has a hole
of its own: in a hole the commas in the string stay a string and those behind it are code, also if
the hole lies in another one. -/
theorem covers_inHole_call :
    let text := "f(\x7b a: '\x7d,,' \x7d, \x60$\x7bb\x7d\x60),,c".toList
    let before := "\x60$\x7b g(\x60x$\x7b".toList
    let behind := "\x7d\x60) \x7d\x60".toList
    let commas := PlainRule.toRule { name := "commas", text := ",,", fixer := some .drop }
    SelfContained text ∧
      Span.covers (literalSpans (inHole text)) (9 + 3) = true ∧
      Span.covers (literalSpans (inHole text)) (23 + 3) = false ∧
      Span.covers (literalSpans (inHole text)) 2 = false ∧
      ScanState.initial.after before = ⟨.code, [0, 0]⟩ ∧
      ∀ inside ∈ commas.pattern.allMatches (before ++ (text ++ behind)),
        ∀ alone ∈ commas.pattern.allMatches text, alone.start < utf8Size text →
          inside.start = utf8Size before + alone.start →
          (inside ∈ commas.codeMatches (before ++ (text ++ behind)) ↔
            alone ∈ commas.codeMatches text) := by
  intro text before behind commas
  have h : SelfContained text := by decide
  obtain ⟨hinside, hdelimiters, hmatches⟩ := covers_inHole h
  have hbefore : ScanState.initial.after before = ⟨.code, [0, 0]⟩ := by decide
  have hspans : literalSpans text = [⟨8, 11⟩, ⟨17, 17⟩, ⟨21, 21⟩] := by decide +kernel
  refine ⟨h, (hinside 9 (by decide)).trans ?_, (hinside 23 (by decide)).trans ?_,
    hdelimiters 2 (.inl (by decide)), hbefore,
    hmatches commas before behind [0, 0] hbefore (fun hslash => absurd hslash (by decide))
      fun hslash => absurd hslash (by decide)⟩
  · rw [hspans]
    decide
  · rw [hspans]
    decide

end LiteralSpans
end SourceRepair
