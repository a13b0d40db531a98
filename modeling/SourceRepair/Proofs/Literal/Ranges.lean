import SourceRepair.Proofs.Literal.Coverage
import SourceRepair.Proofs.PartitionPoint

/-!
# The spans of a text are ranges of it

A span starts and ends where a step of the scanner does, so both of its ends are character
boundaries of the text (`LiteralSpans.inText_of_mem_scan`), and none starts in front of the end of
the one before it. That is what makes it right to look a span up by halves: the ends of the spans
are in order, so those that have ended at an offset stand in front of all others, and the first one
behind them decides (`Span.covers_eq_of_partsAt`).

`LiteralSpans.literalSpans_ranges` puts this together: an offset is covered if it lies in one of the
spans, whichever way the span is looked for.
-/

namespace SourceRepair

open Text

/-! ## Looking a span up by halves -/

namespace Span

/-- Whether the byte at `offset` lies in a literal or comment, by a search among all spans for the
first one that has not ended there. -/
def coversByHalves (spans : List Span) (offset : Nat) : Bool :=
  spans[partitionPoint (·.stop ≤ offset) spans]?.any (·.start ≤ offset)

variable {spans : List Span} {offset : Nat}

/-- The first span that has not ended decides. -/
theorem covers_eq_of_partsAt {count : Nat} (h : PartsAt (·.stop ≤ offset) spans count) :
    covers spans offset = spans[count]?.any (·.start ≤ offset) := by
  have hended : ∀ span ∈ spans.take count, span.stop ≤ offset :=
    fun span hspan => of_decide_eq_true (h.front span hspan)
  have hahead : ∀ span ∈ spans.drop count, offset < span.stop :=
    fun span hspan => Nat.not_le.mp (of_decide_eq_false (h.back span hspan))
  have hdrop : covers spans offset = covers (spans.drop count) offset := by
    conv_lhs => rw [← List.take_append_drop count spans]
    exact covers_append_of_stop_le hended
  rw [hdrop, ← List.head?_drop]
  cases hrest : spans.drop count with
  | nil => rfl
  | cons span more =>
    rw [hrest] at hahead
    exact covers_cons_of_lt_stop (hahead span List.mem_cons_self)

/-- Of spans whose ends are in order the search finds the one that decides. -/
theorem coversByHalves_eq (hsorted : spans.Pairwise fun a b => a.stop ≤ b.stop) (offset : Nat) :
    coversByHalves spans offset = covers spans offset := by
  refine (covers_eq_of_partsAt (partsAt_partitionPoint (hsorted.imp fun hab hb => ?_))).symm
  exact decide_eq_true (Nat.le_trans hab (of_decide_eq_true hb))

end Span

/-! ## Character boundaries -/

namespace Text

/-- A character of `text` starts at `offset`, or the text ends there. -/
def IsBoundary (text : List Char) (offset : Nat) : Prop :=
  ∃ front, front <+: text ∧ offset = utf8Size front

variable {text front : List Char} {offset : Nat}

/-- A boundary of the beginning of a text is one of the text. -/
theorem IsBoundary.mono (h : IsBoundary front offset) (hfront : front <+: text) :
    IsBoundary text offset := by
  obtain ⟨before, hbefore, hoffset⟩ := h
  exact ⟨before, hbefore.trans hfront, hoffset⟩

theorem IsBoundary.le (h : IsBoundary text offset) : offset ≤ utf8Size text := by
  obtain ⟨front, ⟨back, rfl⟩, rfl⟩ := h
  rw [utf8Size_append]
  exact Nat.le_add_right _ _

end Text

/-- The span goes from one boundary of the text to another one that does not lie in front of it. -/
structure Span.InText (text : List Char) (span : Span) : Prop where
  start_isBoundary : IsBoundary text span.start
  stop_isBoundary : IsBoundary text span.stop
  start_le_stop : span.start ≤ span.stop

theorem Span.InText.stop_le {text : List Char} {span : Span} (h : span.InText text) :
    span.stop ≤ utf8Size text :=
  h.stop_isBoundary.le

namespace LiteralSpans

/-- The spans of a scan are ranges of the text scanned with the text in front of it, if what the
scanner stands in began on a boundary there. -/
theorem inText_of_mem_scan {mode : ScanMode} (holes : List Nat) {pos : Nat} (text : List Char)
    (hfits : mode.Fits pos) : ∀ front, pos = utf8Size front →
      (∀ start, mode.start? = some start → IsBoundary front start) →
      ∀ span ∈ scan mode holes pos text, span.InText (front ++ text) := by
  refine scan_induction (motive := fun mode holes pos text => ∀ front, pos = utf8Size front →
      (∀ start, mode.start? = some start → IsBoundary front start) →
      ∀ span ∈ scan mode holes pos text, span.InText (front ++ text)) ?nil ?step holes text hfits
  case nil =>
    intro mode holes pos hfits front hpos hmode span hspan
    rw [scan_nil] at hspan
    obtain ⟨start, hstart, rfl⟩ := List.mem_map.mp hspan
    rw [Option.mem_toList] at hstart
    have hfront : front <+: front ++ [] := List.prefix_append front []
    exact ⟨(hmode start hstart).mono hfront, ⟨front, hfront, hpos⟩, hfits.start_le hstart⟩
  case step =>
    intro mode holes pos text s hfits ih front hpos hmode span hspan
    have htext : front ++ text = front ++ s.token ++ s.rest :=
      (congrArg (front ++ ·) s.text_eq).trans (List.append_assoc _ _ _).symm
    have hread : front ++ s.token <+: front ++ text := htext ▸ List.prefix_append _ _
    have hstop : pos + utf8Size s.token = utf8Size (front ++ s.token) := by
      rw [utf8Size_append]
      omega
    -- the two ends of the step
    have hhere : IsBoundary (front ++ s.token) pos := ⟨front, List.prefix_append _ _, hpos⟩
    have hbehind : IsBoundary (front ++ s.token) (pos + utf8Size s.token) :=
      ⟨front ++ s.token, List.prefix_rfl, hstop⟩
    rw [s.scan_rest, List.mem_append] at hspan
    rcases hspan with hended | hspan
    · have hopen := s.step.start_of_mem hended
      have hstart := hfits.start_le hopen
      have hfront := (hmode _ hopen).mono (List.prefix_append front text)
      rcases s.step.stop_eq_of_mem hended with hend | hend
      · exact ⟨hfront, hend ▸ hhere.mono hread, by omega⟩
      · exact ⟨hfront, hend ▸ hbehind.mono hread, by omega⟩
    · rw [htext]
      refine ih (front ++ s.token) (s.stop_eq.trans hstop) (fun start hnext => ?_) span hspan
      rcases s.step.start_of_next hnext with (rfl | rfl) | hopen
      · exact hhere
      · exact hbehind
      · exact (hmode start hopen).mono (List.prefix_append _ _)

/-- The spans of a text lie in it and start and end on character boundaries, and each one ends
before the next one starts. So an offset, in the text or behind it, is covered if it lies in one of
them, also for a search by halves; a span without bytes covers nothing and misleads no search. -/
theorem literalSpans_ranges (text : List Char) :
    (∀ span ∈ literalSpans text, span.InText text ∧ span.stop ≤ utf8Size text) ∧
      (literalSpans text).Pairwise (fun a b => a.stop ≤ b.start) ∧
      ∀ offset, Span.coversByHalves (literalSpans text) offset
          = Span.covers (literalSpans text) offset ∧
        (Span.covers (literalSpans text) offset = true ↔
          ∃ span ∈ literalSpans text, span.start ≤ offset ∧ offset < span.stop) := by
  have hfits : ScanMode.code.Fits 0 := trivial
  have hnone : ∀ start, ScanMode.code.start? = some start → IsBoundary [] start := by
    simp [ScanMode.start?]
  have hranges : ∀ span ∈ literalSpans text, span.InText text :=
    inText_of_mem_scan [] text hfits [] rfl hnone
  have hpairwise : (literalSpans text).Pairwise fun a b => a.stop ≤ b.start :=
    scan_pairwise [] text hfits
  have hsorted : (literalSpans text).Pairwise fun a b => a.stop ≤ b.stop :=
    hpairwise.imp_of_mem fun _ hb hab => Nat.le_trans hab (hranges _ hb).start_le_stop
  exact ⟨fun span hspan => ⟨hranges span hspan, (hranges span hspan).stop_le⟩, hpairwise,
    fun offset => ⟨Span.coversByHalves_eq hsorted offset, Span.covers_iff_of_pairwise hpairwise⟩⟩

end LiteralSpans
end SourceRepair
