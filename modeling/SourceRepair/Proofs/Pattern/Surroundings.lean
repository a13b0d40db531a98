import SourceRepair.Proofs.Pattern.Matches

/-!
# A stretch of text and what stands around it

A place in a stretch of text, such as a line, is a place in every longer text that holds the stretch
(`Cursor.within`). What a pattern reads inside the stretch depends on the text around it only
through the conditions at its two ends. So between two surroundings in which these are the same
(`SurroundsAlike`), the ends of a pattern that lie in the stretch are the same, and are preferred in
the same order (`forall₂_ends_within`). Which match is preferred does not depend on texts that no
match reaches: `text_eq_of_alike`.
-/

namespace SourceRepair

/-! ## Places and matches in a stretch -/

/-- A place in a line as a place in the text around it. -/
def Cursor.within (above tail : List Char) (c : Cursor) : Cursor :=
  ⟨c.before ++ above, c.rest ++ tail, c.groups⟩

/-- A match in a line as a match in the text around it. -/
def Match.within (above tail : List Char) (m : Match) : Match :=
  ⟨m.before ++ above, m.text, m.after ++ tail, m.groups⟩

namespace Cursor

variable (above tail : List Char)

/-- What stands between two places does not depend on the text around the line. -/
theorem upTo_within (c later : Cursor) :
    (c.within above tail).upTo (later.within above tail) = c.upTo later := by
  have hcount : (c.rest ++ tail).length - (later.rest ++ tail).length
      = c.rest.length - later.rest.length := by
    simp only [List.length_append]
    omega
  show (c.rest ++ tail).take ((c.rest ++ tail).length - (later.rest ++ tail).length)
    = c.rest.take (c.rest.length - later.rest.length)
  rw [hcount, List.take_append_of_le_length (Nat.sub_le _ _)]

theorem capture_within (c origin : Cursor) (name : String) :
    (c.within above tail).capture name (origin.within above tail)
      = (c.capture name origin).within above tail := by
  show (⟨_, _, (name, (origin.within above tail).upTo (c.within above tail)) :: _⟩ : Cursor) = _
  rw [upTo_within]
  rfl

theorem between_within (c later : Cursor) :
    Match.between (c.within above tail) (later.within above tail)
      = (Match.between c later).within above tail := by
  show (⟨_, (c.within above tail).upTo (later.within above tail), _, _⟩ : Match) = _
  rw [upTo_within]
  rfl

/-- The line that a place is in. -/
def line (c : Cursor) : List Char :=
  c.before.reverse ++ c.rest

end Cursor

/-! ## Conditions -/

namespace Assertion

/-- The condition is not about the two ends of the text. -/
def LineAnchored : Assertion → Prop
  | .textStart => False
  | .textEnd => False
  | .lineStart => True
  | .lineEnd => True
  | .wordBoundary => True

/-- A condition is about the two characters next to a place, if any. -/
theorem holds_congr (condition : Assertion) {before rest before' rest' : List Char}
    (hbefore : before'.head? = before.head?) (hrest : rest'.head? = rest.head?) :
    condition.holds before' rest' = condition.holds before rest := by
  cases condition with
  | textStart | lineStart => cases before <;> cases before' <;> simp_all [holds]
  | textEnd | lineEnd => cases rest <;> cases rest' <;> simp_all [holds]
  | wordBoundary => rw [holds, holds, hbefore, hrest]

end Assertion

/-- At every place of `line`, a condition that is not about the two ends of the text holds between
`above` and `tail` if it holds between `above'` and `tail'`. -/
def SurroundsAlike (line above tail above' tail' : List Char) : Prop :=
  ∀ condition : Assertion, condition.LineAnchored → ∀ before rest, before.reverse ++ rest = line →
    condition.holds (before ++ above) (rest ++ tail)
      = condition.holds (before ++ above') (rest ++ tail')

/-- The characters next to a stretch are all that its places see of the text around it. -/
theorem SurroundsAlike.of_head? (line : List Char) {above tail above' tail' : List Char}
    (habove : above'.head? = above.head?) (htail : tail'.head? = tail.head?) :
    SurroundsAlike line above tail above' tail' := by
  intro condition _ before rest _
  refine (condition.holds_congr ?_ ?_).symm
  · rw [List.head?_append, List.head?_append, habove]
  · rw [List.head?_append, List.head?_append, htail]

/-- The two places are one place of `line`, in the two surroundings. -/
def Cursor.SamePlace (line above tail above' tail' : List Char) (c c' : Cursor) : Prop :=
  ∃ e : Cursor, e.line = line ∧ c = e.within above tail ∧ c' = e.within above' tail'

namespace Pattern

/-- No part of the pattern is about the two ends of the text. -/
def LineAnchored : Pattern → Prop
  | .empty => True
  | .one _ => True
  | .seq first second => LineAnchored first ∧ LineAnchored second
  | .alt left right => LineAnchored left ∧ LineAnchored right
  | .repeated _ body => LineAnchored body
  | .group _ body => LineAnchored body
  | .assertion condition => condition.LineAnchored

/-! ## The ends of a pattern in a stretch -/

variable {line above tail above' tail' : List Char}

/-- The place lies in front of the text behind the line. -/
def notBehind (tail : List Char) (c : Cursor) : Bool :=
  tail.length ≤ c.rest.length

theorem notBehind_within (above tail : List Char) (c : Cursor) :
    notBehind tail (c.within above tail) = true :=
  decide_eq_true (by simp [Cursor.within])

/-- From a place behind the line no place in it is reached, so only the places in the line have to
be followed up. -/
theorem filter_flatMap_notBehind {next : Cursor → List Cursor}
    (hforward : ∀ d, ∀ e ∈ next d, e.rest.length ≤ d.rest.length) (places : List Cursor) :
    (places.flatMap next).filter (notBehind tail)
      = (places.filter (notBehind tail)).flatMap fun d => (next d).filter (notBehind tail) := by
  induction places with
  | nil => rfl
  | cons d places ih =>
    rw [List.flatMap_cons, List.filter_append, ih]
    cases hd : notBehind tail d with
    | true => rw [List.filter_cons_of_pos hd, List.flatMap_cons]
    | false =>
      have hbehind : (next d).filter (notBehind tail) = [] := by
        rw [List.filter_eq_nil_iff]
        intro e he
        have hle := hforward d e he
        simp only [notBehind, decide_eq_false_iff_not, decide_eq_true_eq] at hd ⊢
        omega
      rw [List.filter_cons_of_neg (by simp [hd]), hbehind, List.nil_append]

/-- What is reached from the same places by the same steps is the same. -/
theorem forall₂_flatMap_within {places places' : List Cursor} {next next' : Cursor → List Cursor}
    (hplaces : List.Forall₂ (Cursor.SamePlace line above tail above' tail')
      (places.filter (notBehind tail)) (places'.filter (notBehind tail')))
    (hforward : ∀ d, ∀ e ∈ next d, e.rest.length ≤ d.rest.length)
    (hforward' : ∀ d, ∀ e ∈ next' d, e.rest.length ≤ d.rest.length)
    (hnext : ∀ c : Cursor, c.line = line →
      List.Forall₂ (Cursor.SamePlace line above tail above' tail')
        ((next (c.within above tail)).filter (notBehind tail))
        ((next' (c.within above' tail')).filter (notBehind tail'))) :
    List.Forall₂ (Cursor.SamePlace line above tail above' tail')
      ((places.flatMap next).filter (notBehind tail))
      ((places'.flatMap next').filter (notBehind tail')) := by
  rw [filter_flatMap_notBehind hforward, filter_flatMap_notBehind hforward']
  generalize places.filter (notBehind tail) = inLine at hplaces
  generalize places'.filter (notBehind tail') = inLine' at hplaces
  induction hplaces with
  | nil => exact List.Forall₂.nil
  | cons hsame _ ih =>
    obtain ⟨c, hc, rfl, rfl⟩ := hsame
    rw [List.flatMap_cons, List.flatMap_cons]
    exact List.rel_append (hnext c hc) ih

/-- A place in the line is one in both surroundings. -/
theorem forall₂_singleton_within (c : Cursor) (hc : c.line = line) :
    List.Forall₂ (Cursor.SamePlace line above tail above' tail')
      ([c.within above tail].filter (notBehind tail))
      ([c.within above' tail'].filter (notBehind tail')) := by
  rw [List.filter_cons_of_pos (notBehind_within above tail c),
    List.filter_cons_of_pos (notBehind_within above' tail' c)]
  exact List.Forall₂.cons ⟨c, hc, rfl, rfl⟩ List.Forall₂.nil

/-- Stopping at a place in the line is alike where going on from it is. -/
theorem forall₂_stopOr_within (lazy : Bool) (c : Cursor) (hc : c.line = line)
    {more more' : List Cursor}
    (hmore : List.Forall₂ (Cursor.SamePlace line above tail above' tail')
      (more.filter (notBehind tail)) (more'.filter (notBehind tail'))) :
    List.Forall₂ (Cursor.SamePlace line above tail above' tail')
      ((stopOr lazy (c.within above tail) more).filter (notBehind tail))
      ((stopOr lazy (c.within above' tail') more').filter (notBehind tail')) := by
  cases lazy with
  | false =>
    rw [stopOr_false, stopOr_false, List.filter_append, List.filter_append]
    exact List.rel_append hmore (forall₂_singleton_within c hc)
  | true =>
    rw [stopOr_true, stopOr_true, List.filter_cons_of_pos (notBehind_within above tail c),
      List.filter_cons_of_pos (notBehind_within above' tail' c)]
    exact List.Forall₂.cons ⟨c, hc, rfl, rfl⟩ hmore

/-- Rounds that start in the line go on in it alike. -/
theorem forall₂_rounds_within {lazy : Bool} {body : Pattern}
    (hbody : ∀ c : Cursor, c.line = line →
      List.Forall₂ (Cursor.SamePlace line above tail above' tail')
        ((body.ends (c.within above tail)).filter (notBehind tail))
        ((body.ends (c.within above' tail')).filter (notBehind tail')))
    (c : Cursor) (hc : c.line = line) :
    List.Forall₂ (Cursor.SamePlace line above tail above' tail')
      ((rounds lazy body.ends (c.within above tail)).filter (notBehind tail))
      ((rounds lazy body.ends (c.within above' tail')).filter (notBehind tail')) := by
  induction hn : c.rest.length using Nat.strongRecOn generalizing c with
  | _ n ih =>
    subst hn
    have hforward : ∀ (c d : Cursor), ∀ e ∈ (if _ : d.rest.length < c.rest.length then
        rounds lazy body.ends d else []), e.rest.length ≤ d.rest.length := by
      intro c d e he
      split at he
      · exact rounds_length_le d e he
      · exact absurd he List.not_mem_nil
    rw [rounds, rounds]
    refine forall₂_stopOr_within lazy c hc
      (forall₂_flatMap_within (hbody c hc) (hforward _) (hforward _) ?_)
    intro d hd
    have hshorter : ∀ above tail, (d.within above tail).rest.length
        < (c.within above tail).rest.length ↔ d.rest.length < c.rest.length := by
      intro above tail
      simp [Cursor.within]
    by_cases hlt : d.rest.length < c.rest.length
    · rw [dif_pos ((hshorter _ _).mpr hlt), dif_pos ((hshorter _ _).mpr hlt)]
      exact ih _ hlt d hd rfl
    · rw [dif_neg (mt (hshorter _ _).mp hlt), dif_neg (mt (hshorter _ _).mp hlt)]
      exact List.Forall₂.nil

/-- A class reads no character of the line where there is none left. -/
theorem filter_ends_one_nil (accepts : Char → Bool) (before : List Char) (groups : Captures)
    (tail : List Char) :
    ((one accepts).ends ⟨before, tail, groups⟩).filter (notBehind tail) = [] := by
  rw [List.filter_eq_nil_iff]
  intro d hd
  have hshorter : d.rest.length < tail.length := by
    rw [ends] at hd
    split at hd
    · exact absurd hd List.not_mem_nil
    · rename_i x rest hrest
      have htail : tail = x :: rest := hrest
      split at hd
      · rw [List.mem_singleton.mp hd, htail]
        exact Nat.lt_succ_self _
      · exact absurd hd List.not_mem_nil
  simp only [notBehind, decide_eq_true_eq]
  omega

/-- As far as they lie in the line, the ends of a pattern are the same, in the same order. -/
theorem forall₂_ends_within {p : Pattern} (hp : p.LineAnchored)
    (h : SurroundsAlike line above tail above' tail') (c : Cursor) (hc : c.line = line) :
    List.Forall₂ (Cursor.SamePlace line above tail above' tail')
      ((p.ends (c.within above tail)).filter (notBehind tail))
      ((p.ends (c.within above' tail')).filter (notBehind tail')) := by
  induction p generalizing c with
  | empty => exact forall₂_singleton_within c hc
  | one accepts =>
    obtain ⟨before, rest, groups⟩ := c
    rcases rest with _ | ⟨x, rest⟩
    · -- behind the line the pattern may read on, but then it has left the line
      rw [Cursor.within, Cursor.within, List.nil_append, List.nil_append, filter_ends_one_nil,
        filter_ends_one_nil]
      exact List.Forall₂.nil
    · have hread : (⟨x :: before, rest, groups⟩ : Cursor).line = line := by
        rw [← hc]
        simp [Cursor.line]
      rw [ends, ends]
      show List.Forall₂ _
        ((if accepts x then [(⟨x :: before, rest, groups⟩ : Cursor).within above tail]
          else []).filter (notBehind tail))
        ((if accepts x then [(⟨x :: before, rest, groups⟩ : Cursor).within above' tail']
          else []).filter (notBehind tail'))
      split
      · exact forall₂_singleton_within _ hread
      · exact List.Forall₂.nil
  | seq first second ih₁ ih₂ =>
    rw [ends, ends]
    exact forall₂_flatMap_within (ih₁ hp.1 c hc) (fun d => ends_length_le second d)
      (fun d => ends_length_le second d) fun d hd => ih₂ hp.2 d hd
  | alt left right ih₁ ih₂ =>
    rw [ends, ends, List.filter_append, List.filter_append]
    exact List.rel_append (ih₁ hp.1 c hc) (ih₂ hp.2 c hc)
  | repeated lazy body ih => exact forall₂_rounds_within (ih hp) c hc
  | group name body ih =>
    rw [ends, ends, List.filter_map, List.filter_map, List.forall₂_map_left_iff,
      List.forall₂_map_right_iff]
    refine (ih hp c hc).imp fun d d' hsame => ?_
    obtain ⟨e, he, hd, hd'⟩ := hsame
    refine ⟨e.capture name c, he, ?_, ?_⟩
    · rw [hd, Cursor.capture_within]
    · rw [hd', Cursor.capture_within]
  | assertion condition =>
    have hholds := h condition hp c.before c.rest hc
    rw [ends, ends]
    show List.Forall₂ _
      ((if condition.holds (c.before ++ above) (c.rest ++ tail) then [c.within above tail]
        else []).filter (notBehind tail))
      ((if condition.holds (c.before ++ above') (c.rest ++ tail') then [c.within above' tail']
        else []).filter (notBehind tail'))
    rw [hholds]
    split
    · exact forall₂_singleton_within c hc
    · exact List.Forall₂.nil

/-! ## Matches in a stretch -/

variable {p : Pattern} {m m' : Match}

/-- A match that stays in the stretch is the first of the ends that lie in it. -/
theorem exists_head?_eq_of_matchAt? (hm : p.matchAt? ⟨above, line ++ tail, []⟩ = some m)
    (hin : tail.length ≤ m.after.length) :
    ∃ d, ((p.ends ⟨above, line ++ tail, []⟩).filter (notBehind tail)).head? = some d ∧
      m = Match.between ⟨above, line ++ tail, []⟩ d := by
  rw [matchAt?_eq, Option.map_eq_some_iff] at hm
  obtain ⟨d, hd, rfl⟩ := hm
  obtain ⟨more, hends⟩ := List.head?_eq_some_iff.mp hd
  refine ⟨d, ?_, rfl⟩
  replace hends : p.ends ⟨above, line ++ tail, []⟩ = d :: more := hends
  have hfirst : notBehind tail d = true := decide_eq_true hin
  rw [hends, List.filter_cons_of_pos hfirst]
  rfl

/-- Between surroundings that are alike, where a match stays in the stretch there is a match in both
of them. -/
theorem exists_matchAt?_of_alike (hp : p.LineAnchored)
    (h : SurroundsAlike line above tail above' tail')
    (hm : p.matchAt? ⟨above, line ++ tail, []⟩ = some m) (hin : tail.length ≤ m.after.length) :
    ∃ m', p.matchAt? ⟨above', line ++ tail', []⟩ = some m' := by
  obtain ⟨d, hd, -⟩ := exists_head?_eq_of_matchAt? hm hin
  have hboth := forall₂_ends_within hp h ⟨[], line, []⟩ rfl
  have hsome : p.ends ⟨above', line ++ tail', []⟩ ≠ [] := by
    intro hnil
    have hnone : (p.ends ((⟨[], line, []⟩ : Cursor).within above' tail')).filter
        (notBehind tail') = [] := List.filter_eq_nil_iff.mpr fun e he => by
      replace hnil : p.ends ((⟨[], line, []⟩ : Cursor).within above' tail') = [] := hnil
      rw [hnil] at he
      exact absurd he List.not_mem_nil
    rw [hnone, List.forall₂_nil_right_iff] at hboth
    replace hboth : (p.ends ⟨above, line ++ tail, []⟩).filter (notBehind tail) = [] := hboth
    rw [hboth] at hd
    exact absurd hd (Option.some_ne_none d).symm
  obtain ⟨e, more, hends⟩ := List.exists_cons_of_ne_nil hsome
  refine ⟨Match.between ⟨above', line ++ tail', []⟩ e, ?_⟩
  rw [matchAt?_eq]
  show (p.ends ⟨above', line ++ tail', []⟩).head?.map _ = _
  rw [hends]
  rfl

/-- Where both matches stay in the stretch, they read the same. -/
theorem text_eq_of_alike (hp : p.LineAnchored) (h : SurroundsAlike line above tail above' tail')
    (hm : p.matchAt? ⟨above, line ++ tail, []⟩ = some m) (hin : tail.length ≤ m.after.length)
    (hm' : p.matchAt? ⟨above', line ++ tail', []⟩ = some m')
    (hin' : tail'.length ≤ m'.after.length) :
    m'.text = m.text := by
  obtain ⟨d, hd, rfl⟩ := exists_head?_eq_of_matchAt? hm hin
  obtain ⟨d', hd', rfl⟩ := exists_head?_eq_of_matchAt? hm' hin'
  have hboth : List.Forall₂ (Cursor.SamePlace line above tail above' tail')
      ((p.ends ⟨above, line ++ tail, []⟩).filter (notBehind tail))
      ((p.ends ⟨above', line ++ tail', []⟩).filter (notBehind tail')) :=
    forall₂_ends_within hp h ⟨[], line, []⟩ rfl
  obtain ⟨more, hmore⟩ := List.head?_eq_some_iff.mp hd
  obtain ⟨more', hmore'⟩ := List.head?_eq_some_iff.mp hd'
  rw [hmore, hmore'] at hboth
  obtain ⟨⟨e, -, rfl, rfl⟩, -⟩ := List.forall₂_cons.mp hboth
  have hread : ∀ above tail, (⟨above, line ++ tail, []⟩ : Cursor).upTo (e.within above tail)
      = (⟨[], line, []⟩ : Cursor).upTo e := fun above tail =>
    Cursor.upTo_within above tail ⟨[], line, []⟩ e
  show Cursor.upTo _ _ = Cursor.upTo _ _
  rw [hread, hread]

end Pattern

end SourceRepair
