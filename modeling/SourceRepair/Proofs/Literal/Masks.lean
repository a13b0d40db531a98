import SourceRepair.Proofs.Literal.Coverage

/-!
# Spans and states

The scanner with offsets makes spans, and the one without says of each character whether it is
literal. They go the same way: a character is covered by the spans if the mask says so
(`getElem?_mask`). So what a rule sees of a text depends on states alone, and offsets need not be
carried along.
-/

namespace SourceRepair

open Text

namespace LiteralSpans

variable {mode : ScanMode} {holes : List Nat} {pos : Nat} {text : List Char}

namespace FirstStep.Follows

variable {s : FirstStep mode holes pos text}

/-- The mask of a text begins with what the first step says of its characters. -/
theorem mask_eq (h : s.Follows) : ScanState.mask ⟨mode.kind, holes⟩ text
    = List.replicate s.token.length s.covered
      ++ ScanState.mask ⟨s.next.kind, s.nextHoles⟩ s.rest := by
  refine (congrArg _ s.text_eq).trans ?_
  rcases h with ⟨c, htoken, hstep⟩ | ⟨c, d, htoken, hstep⟩
  · rw [htoken, List.singleton_append, ScanState.mask_cons _ (by rw [hstep]), hstep]
    rfl
  · rw [htoken]
    show ScanState.mask _ (c :: d :: s.rest) = _
    rw [ScanState.mask_cons_cons (by rw [hstep]), hstep]
    rfl

/-- The state behind the first step and some text that goes on as the scanned one does. -/
theorem after_eq (h : s.Follows) {front : List Char} (hhead : front.head? = s.rest.head?) :
    ScanState.after ⟨mode.kind, holes⟩ (s.token ++ front)
      = ScanState.after ⟨s.next.kind, s.nextHoles⟩ front := by
  rcases h with ⟨c, htoken, hstep⟩ | ⟨c, d, htoken, hstep⟩
  · rw [← hhead] at hstep
    rw [htoken, List.singleton_append, ScanState.after_cons _ (by rw [hstep]), hstep]
  · rw [htoken]
    show ScanState.after _ (c :: d :: front) = _
    rw [ScanState.after_cons_cons (by rw [hstep]), hstep]

end FirstStep.Follows

/-- The spans cover the characters that the mask says are literal. -/
theorem getElem?_mask (hfits : mode.Fits pos) (before : List Char) (c : Char) (after : List Char) :
    (ScanState.mask ⟨mode.kind, holes⟩ (before ++ c :: after))[before.length]?
      = some (Span.covers (scan mode holes pos (before ++ c :: after))
          (pos + utf8Size before)) := by
  refine scan_induction_at c after (motive := fun mode holes pos before =>
    (ScanState.mask ⟨mode.kind, holes⟩ (before ++ c :: after))[before.length]?
      = some (Span.covers (scan mode holes pos (before ++ c :: after)) (pos + utf8Size before)))
    ?here ?behind holes before hfits
  case here =>
    intro mode holes pos before s back hs hfits htoken _
    have hstop := s.stop_eq
    have hsize := Char.utf8Size_pos c
    rw [htoken, utf8Size_append, utf8Size_cons] at hstop
    have hlt : before.length < s.token.length := by
      rw [htoken]
      simp
    rw [hs.mask_eq, s.covers_token hfits (by omega) (by omega),
      List.getElem?_append_left (by simpa using hlt), List.getElem?_replicate_of_lt hlt]
  case behind =>
    intro mode holes pos token front s hs _ htoken hrest ih
    have hindex : (token ++ front).length
        = (List.replicate s.token.length s.covered).length + front.length := by simp [htoken]
    rw [hs.mask_eq, s.stop_add htoken, s.covers_rest (Nat.le_add_right _ _), hindex,
      List.getElem?_append_right (Nat.le_add_right _ _), Nat.add_sub_cancel_left, hrest]
    exact ih

end LiteralSpans
end SourceRepair
