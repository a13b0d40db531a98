import SourceRepair.Proofs.Pattern.Reading
import SourceRepair.Proofs.Text.Cutting

/-!
# The matches found in a text

A search goes on behind the match it found last, so the matches of a pattern stand in the text one
after another: `allMatches_inOrder`. Each of them reads what the pattern reads between the text
before and the text behind it. Leaving matches out keeps this order, which is what a rule does that
applies only some of its matches.
-/

namespace SourceRepair

/-- The match is one of the pattern, at the place where it stands. -/
def Match.Of (p : Pattern) (m : Match) : Prop :=
  p.Reads m.before m.text m.after m.groups

namespace Match.Of

variable {p : Pattern} {m : Match} {name : String} {c : Char}

/-- What a group of a match captured is part of the match. -/
theorem mem_of_mem_group? (h : m.Of p) {captured : List Char}
    (hgroup : m.group? name = some captured) (hc : c ∈ captured) : c ∈ m.text := by
  obtain ⟨later, earlier, hgroups, -⟩ := List.lookup_eq_some_iff.mp hgroup
  have hmem : (name, captured) ∈ m.groups := by
    rw [hgroups]
    exact List.mem_append_right later List.mem_cons_self
  exact h.mem_of_mem_groups _ hmem c hc

/-- The text of a group is part of the match, also if it is empty for want of a capture. -/
theorem mem_of_mem_group (h : m.Of p) (hc : c ∈ m.group name) : c ∈ m.text := by
  rw [group] at hc
  cases hgroup : m.group? name with
  | none =>
    rw [hgroup] at hc
    exact absurd hc List.not_mem_nil
  | some captured =>
    rw [hgroup] at hc
    exact h.mem_of_mem_group? hgroup hc

end Match.Of

/-- A group that was captured once has what was captured, whatever groups came later. -/
theorem Match.group_eq_of_groups {m : Match} {name : String} {captured : List Char}
    {late early : Captures} (hgroups : m.groups = late ++ (name, captured) :: early)
    (hlate : late.lookup name = none) : m.group name = captured := by
  rw [Match.group, Match.group?, hgroups, List.lookup_append, hlate, List.lookup_cons_self]
  rfl

/-- A match of a pattern that begins with a group is what the group captured and what stands behind
it. -/
theorem Match.Of.exists_eq_group_append {name : String} {body p : Pattern} {m : Match}
    (h : m.Of (.seq (.group name body) p)) (hbody : body.groupNames = [])
    (hp : name ∉ p.groupNames) :
    ∃ back late, m.text = m.group name ++ back ∧
      p.Reads ((m.group name).reverse ++ m.before) back m.after late := by
  obtain ⟨front, back, late, htext, hgroups, hlate, -, hback⟩ :=
    Pattern.Reads.group_seq h hbody hp
  rw [Match.group_eq_of_groups hgroups hlate]
  exact ⟨back, late, htext, hback⟩

/-- The matches are of the pattern and stand one after another in `rest`, which follows `before`
(nearest character first). -/
def Match.InOrder (p : Pattern) : (before rest : List Char) → List Match → Prop
  | _, _, [] => True
  | before, rest, m :: more =>
    ∃ skipped, rest = skipped ++ (m.text ++ m.after) ∧ m.before = skipped.reverse ++ before ∧
      m.Of p ∧ InOrder p (m.text.reverse ++ m.before) m.after more

namespace Match.InOrder

variable {p : Pattern} {before rest : List Char} {ms : List Match}

/-- Matches in a text are in order in every longer one that ends in it. -/
theorem of_skip (skipped : List Char) (h : InOrder p (skipped.reverse ++ before) rest ms) :
    InOrder p before (skipped ++ rest) ms := by
  cases ms with
  | nil => trivial
  | cons m more =>
    obtain ⟨inner, hrest, hbefore, hof, hmore⟩ := h
    refine ⟨skipped ++ inner, ?_, ?_, hof, hmore⟩
    · rw [hrest, List.append_assoc]
    · rw [hbefore, List.reverse_append, List.append_assoc]

/-- Some of the matches are in order if all are. -/
theorem sublist {some : List Match} (hsub : some.Sublist ms) (h : InOrder p before rest ms) :
    InOrder p before rest some := by
  induction hsub generalizing before rest with
  | slnil => trivial
  | @cons _ _ m _ ih =>
    -- a match that is left out belongs to what the next one skips
    obtain ⟨skipped, hrest, hbefore, -, hmore⟩ := h
    have hinner := ih hmore
    rw [hbefore] at hinner
    rw [hrest, ← List.append_assoc]
    exact of_skip (skipped ++ m.text) (by simpa using hinner)
  | cons_cons m _ ih =>
    obtain ⟨skipped, hrest, hbefore, hof, hmore⟩ := h
    exact ⟨skipped, hrest, hbefore, hof, ih hmore⟩

/-- Every one of the matches is of the pattern and has the whole text around it. -/
theorem of_mem (h : InOrder p before rest ms) {m : Match} (hm : m ∈ ms) :
    m.Of p ∧ before.reverse ++ rest = m.before.reverse ++ (m.text ++ m.after) := by
  induction ms generalizing before rest with
  | nil => exact absurd hm (by simp)
  | cons first more ih =>
    obtain ⟨skipped, hrest, hbefore, hof, hmore⟩ := h
    have hwhole : before.reverse ++ rest
        = first.before.reverse ++ (first.text ++ first.after) := by
      rw [hrest, hbefore, List.reverse_append, List.reverse_reverse, List.append_assoc]
    rcases List.mem_cons.mp hm with rfl | hm
    · exact ⟨hof, hwhole⟩
    · obtain ⟨hof', hwhole'⟩ := ih hmore hm
      refine ⟨hof', ?_⟩
      rw [hwhole, ← hwhole', List.reverse_append, List.reverse_reverse, List.append_assoc]

end Match.InOrder

/-! ## Matches in front of others -/

/-- The match ends at or before the place where `later` starts. -/
def Match.Precedes (m later : Match) : Prop :=
  ∃ between, later.before = between ++ (m.text.reverse ++ m.before)

namespace Match.InOrder

variable {p : Pattern} {before rest : List Char} {ms : List Match}

/-- What stands before the matches stands before each of them. -/
theorem exists_before_eq (h : InOrder p before rest ms) {m : Match} (hm : m ∈ ms) :
    ∃ between, m.before = between ++ before := by
  induction ms generalizing before rest with
  | nil => exact absurd hm List.not_mem_nil
  | cons first more ih =>
    obtain ⟨skipped, -, hbefore, -, hmore⟩ := h
    rcases List.mem_cons.mp hm with rfl | hm
    · exact ⟨skipped.reverse, hbefore⟩
    · obtain ⟨between, hbetween⟩ := ih hmore hm
      refine ⟨between ++ (first.text.reverse ++ skipped.reverse), ?_⟩
      rw [hbetween, hbefore]
      simp only [List.append_assoc]

/-- So none of them starts in front of it. -/
theorem le_start (h : InOrder p before rest ms) {m : Match} (hm : m ∈ ms) :
    Text.utf8Size before ≤ m.start := by
  obtain ⟨between, hbetween⟩ := h.exists_before_eq hm
  rw [Match.start, hbetween, Text.utf8Size_append]
  exact Nat.le_add_left _ _

/-- Each match ends before all later ones start. -/
theorem pairwise_precedes (h : InOrder p before rest ms) : ms.Pairwise Match.Precedes := by
  induction ms generalizing before rest with
  | nil => exact List.Pairwise.nil
  | cons m more ih =>
    obtain ⟨-, -, -, -, hmore⟩ := h
    exact List.Pairwise.cons (fun later hlater => hmore.exists_before_eq hlater) (ih hmore)

end Match.InOrder

namespace Match.Precedes

variable {m later : Match}

/-- A match that ends before another one has the smaller offsets. -/
theorem stop_le_start (h : m.Precedes later) : m.stop ≤ later.start := by
  obtain ⟨between, hbefore⟩ := h
  have hstart : later.start
      = Text.utf8Size between + (Text.utf8Size m.text + Text.utf8Size m.before) := by
    rw [Match.start, hbefore, Text.utf8Size_append, Text.utf8Size_append, Text.utf8Size_reverse]
  rw [hstart, Match.stop, Match.start]
  omega

end Match.Precedes

/-! ## Searches -/

namespace Pattern

variable {p : Pattern}

/-- A match found at a place starts there. -/
theorem matchAt?_eq_some {c : Cursor} {m : Match} (h : p.matchAt? c = some m) :
    c.rest = m.text ++ m.after ∧ m.before = c.before ∧ m.Of p := by
  rw [matchAt?_eq, Option.map_eq_some_iff] at h
  obtain ⟨d, hd, rfl⟩ := h
  obtain ⟨word, groups, hreach, hword⟩ := (mem_ends_iff p _ d).mp (List.mem_of_head? hd)
  have htext : c.upTo d = word := hreach.upTo_eq
  have hgroups : d.groups = groups := hreach.groups_eq.trans (List.append_nil groups)
  refine ⟨?_, rfl, ?_⟩
  · show c.rest = c.upTo d ++ d.rest
    rw [htext]
    exact hreach.rest_eq
  · show p.Reads c.before (c.upTo d) d.rest d.groups
    rw [htext, hgroups]
    exact hword

/-- Where the pattern can read something it matches, if not the same. -/
theorem Reads.exists_matchAt? {before word rest : List Char} {groups : Captures}
    (h : p.Reads before word rest groups) :
    ∃ m, p.matchAt? ⟨before, word ++ rest, []⟩ = some m := by
  have hmem : ⟨word.reverse ++ before, rest, groups ++ []⟩ ∈ p.ends ⟨before, word ++ rest, []⟩ :=
    (mem_ends_iff p _ _).mpr ⟨word, groups, ⟨rfl, rfl, rfl⟩, h⟩
  obtain ⟨d, more, hends⟩ := List.exists_cons_of_ne_nil (List.ne_nil_of_mem hmem)
  exact ⟨_, by rw [matchAt?_eq, hends]; rfl⟩

/-- A search takes the match here, or goes on with the next character. -/
theorem findFrom_cons (p : Pattern) (before rest : List Char) (x : Char) :
    p.findFrom before (x :: rest)
      = (p.matchAt? ⟨before, x :: rest, []⟩).or (p.findFrom (x :: before) rest) := by
  rw [findFrom]
  cases p.matchAt? ⟨before, x :: rest, []⟩ <;> rfl

/-- A search finds a match at or behind the place where it starts. -/
theorem findFrom_eq_some {before rest : List Char} {m : Match}
    (h : p.findFrom before rest = some m) :
    ∃ skipped, rest = skipped ++ (m.text ++ m.after) ∧ m.before = skipped.reverse ++ before ∧
      m.Of p := by
  induction rest generalizing before with
  | nil =>
    obtain ⟨hrest, hbefore, hof⟩ := matchAt?_eq_some h
    exact ⟨[], hrest, hbefore, hof⟩
  | cons x rest ih =>
    rw [findFrom_cons, Option.or_eq_some_iff] at h
    obtain hm | ⟨-, h⟩ := h
    · obtain ⟨hrest, hbefore, hof⟩ := matchAt?_eq_some hm
      exact ⟨[], hrest, hbefore, hof⟩
    · obtain ⟨skipped, hrest, hbefore, hof⟩ := ih h
      refine ⟨x :: skipped, by rw [hrest]; rfl, ?_, hof⟩
      rw [hbefore, List.reverse_cons, List.append_assoc]
      rfl

/-- The matches from a place on stand one after another. -/
theorem matchesFrom_inOrder (barred : Bool) (before rest : List Char) :
    Match.InOrder p before rest (p.matchesFrom barred before rest) := by
  fun_induction matchesFrom p barred before rest with
  | case1 => trivial
  | case2 => trivial
  | case3 barred before m x rest _ _ ih => exact Match.InOrder.of_skip [x] ih
  | case4 barred before rest m hfind _ ih =>
    obtain ⟨skipped, hrest, hbefore, hof⟩ := findFrom_eq_some hfind
    exact ⟨skipped, hrest, hbefore, hof, ih⟩

/-- The matches in a text stand in it one after another. -/
theorem allMatches_inOrder (p : Pattern) (text : List Char) :
    Match.InOrder p [] text (p.allMatches text) :=
  matchesFrom_inOrder false [] text

end Pattern

end SourceRepair
