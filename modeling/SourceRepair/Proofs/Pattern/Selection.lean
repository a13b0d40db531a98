import SourceRepair.Proofs.Pattern.Lines

/-!
# Which matches a search selects

From a place in a text a pattern may match without the search selecting that match, because one that
starts before reaches over the place. Nothing else keeps it out (`mem_allMatches`). So whether a
match is among those found can be told from the matches in front of it, without running the search.
No two matches start at one place (`matchesFrom_pairwise_start_lt`).

Of the ends that a match can have the preferred one is selected. For a run of rounds that is not
lazy this is one behind which no further round can be read (`not_lt_of_head?_rounds`).
-/

namespace SourceRepair.Pattern

variable {p : Pattern} {before skipped rest text : List Char} {m other : Match}

/-- A search finds the match at the first place where there is one. -/
theorem findFrom_of_matchAt? (h : p.matchAt? ⟨skipped.reverse ++ before, rest, []⟩ = some m) :
    ∃ early late first, skipped = early ++ late ∧
      p.findFrom before (skipped ++ rest) = some first ∧
      p.matchAt? ⟨early.reverse ++ before, late ++ rest, []⟩ = some first := by
  induction skipped generalizing before with
  | nil =>
    refine ⟨[], [], m, rfl, ?_, h⟩
    cases rest with
    | nil => exact h
    | cons x rest =>
      rw [List.nil_append, findFrom_cons]
      rw [List.reverse_nil, List.nil_append] at h
      rw [h, Option.some_or]
  | cons x skipped ih =>
    rw [List.cons_append, findFrom_cons]
    cases hhere : p.matchAt? ⟨before, x :: (skipped ++ rest), []⟩ with
    | some first => exact ⟨[], x :: skipped, first, rfl, Option.some_or, hhere⟩
    | none =>
      rw [List.reverse_cons, List.append_assoc] at h
      obtain ⟨early, late, first, rfl, hfind, hfirst⟩ := ih h
      refine ⟨x :: early, late, first, rfl, Option.none_or.trans hfind, ?_⟩
      rwa [List.reverse_cons, List.append_assoc]

/-- A match found is the one at the place where it starts. -/
theorem matchAt?_of_findFrom (h : p.findFrom before rest = some m) :
    p.matchAt? ⟨m.before, m.text ++ m.after, []⟩ = some m := by
  have hself : ∀ {before rest : List Char}, p.matchAt? ⟨before, rest, []⟩ = some m →
      p.matchAt? ⟨m.before, m.text ++ m.after, []⟩ = some m := by
    intro before rest hm
    obtain ⟨hrest, hbefore, -⟩ := matchAt?_eq_some hm
    rw [hbefore, ← hrest]
    exact hm
  induction rest generalizing before with
  | nil => exact hself h
  | cons x rest ih =>
    rw [findFrom_cons, Option.or_eq_some_iff] at h
    obtain hm | ⟨-, h⟩ := h
    · exact hself hm
    · exact ih h

theorem matchAt?_of_mem_matchesFrom {barred : Bool} (h : m ∈ p.matchesFrom barred before rest) :
    p.matchAt? ⟨m.before, m.text ++ m.after, []⟩ = some m := by
  fun_induction matchesFrom p barred before rest with
  | case1 => exact absurd h List.not_mem_nil
  | case2 => exact absurd h List.not_mem_nil
  | case3 barred before first x rest hfind _ ih => exact ih h
  | case4 barred before rest first hfind _ ih =>
    rcases List.mem_cons.mp h with rfl | h
    · exact matchAt?_of_findFrom hfind
    · exact ih h

/-- A search finds nothing in front of the place where it starts. -/
theorem le_start_of_mem_matchesFrom {barred : Bool} (h : m ∈ p.matchesFrom barred before rest) :
    Text.utf8Size before ≤ m.start :=
  (matchesFrom_inOrder barred before rest).le_start h

/-- Behind an empty match the search goes on with the next character. -/
theorem lt_start_of_mem_matchesFrom_barred (hself : p.matchAt? ⟨before, rest, []⟩ = some m)
    (hempty : m.text = []) (h : other ∈ p.matchesFrom true before rest) :
    Text.utf8Size before < other.start := by
  obtain ⟨hrest, -, -⟩ := matchAt?_eq_some hself
  have hafter : m.after = rest := by
    rw [hempty] at hrest
    exact hrest.symm
  have hfind : p.findFrom before rest = some m := by
    cases rest with
    | nil => exact hself
    | cons x rest => rw [findFrom_cons, hself, Option.some_or]
  rw [matchesFrom] at h
  split at h
  · exact absurd h List.not_mem_nil
  · rename_i found hfound
    obtain rfl := Option.some.inj (hfind.symm.trans hfound)
    rw [dif_pos ⟨rfl, hempty, congrArg List.length hafter⟩] at h
    cases rest with
    | nil => exact absurd h List.not_mem_nil
    | cons x rest =>
      have hle := le_start_of_mem_matchesFrom h
      have hpos := x.utf8Size_pos
      rw [Text.utf8Size_cons] at hle
      omega

/-- The matches of a search start one behind the other, empty ones too. -/
theorem matchesFrom_pairwise_start_lt (p : Pattern) (barred : Bool) (before rest : List Char) :
    (p.matchesFrom barred before rest).Pairwise fun m later => m.start < later.start := by
  fun_induction matchesFrom p barred before rest with
  | case1 => exact List.Pairwise.nil
  | case2 => exact List.Pairwise.nil
  | case3 barred before m x rest _ _ ih => exact ih
  | case4 barred before rest m hfind _ ih =>
    refine List.Pairwise.cons (fun later hlater => ?_) ih
    by_cases hempty : m.text = []
    · have hself := matchAt?_of_findFrom hfind
      rw [hempty, List.nil_append] at hself
      have hplace : m.endCursor.before = m.before := by
        rw [Match.endCursor, hempty]
        rfl
      rw [hplace] at hlater
      exact lt_start_of_mem_matchesFrom_barred hself hempty hlater
    · have hle := le_start_of_mem_matchesFrom hlater
      have hsize : Text.utf8Size m.endCursor.before
          = Text.utf8Size m.text + m.start := by
        show Text.utf8Size (m.text.reverse ++ m.before) = _
        rw [Text.utf8Size_append, Text.utf8Size_reverse]
        rfl
      have hread : Text.utf8Size m.text ≠ 0 := fun hzero =>
        hempty (Text.eq_nil_of_utf8Size_eq_zero hzero)
      omega

/-- A match that none in front of it reaches into is among those of the search. -/
theorem StaysInLine.mem_matchesFrom (hp : p.StaysInLine)
    (hm : p.matchAt? ⟨skipped.reverse ++ before, rest, []⟩ = some m)
    (hfree : ∀ other ∈ p.matchesFrom false before (skipped ++ rest),
      other.start < m.start → other.stop ≤ m.start) :
    m ∈ p.matchesFrom false before (skipped ++ rest) := by
  -- the search goes on behind the first match, which ends where `m` starts or before
  induction hn : skipped.length using Nat.strongRecOn generalizing before skipped with
  | _ n ih =>
    subst hn
    obtain ⟨early, late, first, rfl, hfind, hfirst⟩ := findFrom_of_matchAt? hm
    have hfound : p.matchesFrom false before (early ++ late ++ rest)
        = first :: p.matchesFrom false first.endCursor.before first.after := by
      rw [hp.matchesFrom_eq, hfind]
    rw [hfound] at hfree ⊢
    obtain ⟨hrest, hbefore, hof⟩ := matchAt?_eq_some hfirst
    obtain ⟨-, hmBefore, -⟩ := matchAt?_eq_some hm
    replace hrest : late ++ rest = first.text ++ first.after := hrest
    replace hbefore : first.before = early.reverse ++ before := hbefore
    replace hmBefore : m.before = (early ++ late).reverse ++ before := hmBefore
    have hstart : m.start = first.start + Text.utf8Size late := by
      rw [Match.start, Match.start, hmBefore, hbefore, List.reverse_append, List.append_assoc,
        Text.utf8Size_append, Text.utf8Size_reverse, Nat.add_comm]
    cases late with
    | nil =>
      rw [List.append_nil] at hm
      obtain rfl := Option.some.inj (hm.symm.trans hfirst)
      exact List.mem_cons_self
    | cons x late =>
      have hread := List.length_pos_of_ne_nil (Reads.ne_nil hof hp.consumes)
      have hsize := x.utf8Size_pos
      have hstop := hfree first List.mem_cons_self (by
        rw [hstart, Text.utf8Size_cons]
        omega)
      obtain ⟨between, hlate, hafter⟩ := Text.exists_of_append_eq_append hrest.symm (by
        rw [hstart, Match.stop] at hstop
        omega)
      have hplace : (early ++ x :: late).reverse ++ before
          = between.reverse ++ first.endCursor.before := by
        show _ = between.reverse ++ (first.text.reverse ++ first.before)
        rw [hlate, hbefore]
        simp
      rw [hplace] at hm
      rw [hafter] at hfree ⊢
      refine List.mem_cons_of_mem first (ih between.length ?_ hm (fun other hother =>
        hfree other (List.mem_cons_of_mem first hother)) rfl)
      have hlength := congrArg List.length hlate
      simp only [List.length_append, List.length_cons] at hlength ⊢
      omega

/-! ## Preferred ends -/

/-- The preferred end of a run of rounds, unless it is a lazy one, leaves no room for another
round. -/
theorem not_lt_of_head?_rounds {step : Cursor → List Cursor} {c d : Cursor}
    (h : (rounds false step c).head? = some d) : ∀ e ∈ step d, ¬ e.rest.length < d.rest.length := by
  induction hn : c.rest.length using Nat.strongRecOn generalizing c with
  | _ n ih =>
    subst hn
    rw [rounds, stopOr_false, List.head?_append] at h
    cases hmore : ((step c).flatMap fun d =>
        if _ : d.rest.length < c.rest.length then rounds false step d else []).head? with
    | none =>
      -- no round can be read at all
      rw [hmore] at h
      obtain rfl := Option.some.inj h
      intro e he hlt
      rw [List.head?_eq_none_iff, List.flatMap_eq_nil_iff] at hmore
      have hnil := hmore e he
      rw [dif_pos hlt, rounds, stopOr_false] at hnil
      exact absurd hnil (by simp)
    | some first =>
      rw [hmore] at h
      obtain rfl := Option.some.inj h
      rw [List.head?_flatMap] at hmore
      obtain ⟨e, -, he⟩ := List.exists_of_findSome?_eq_some hmore
      split at he
      · rename_i hlt
        exact ih _ hlt he rfl
      · exact absurd he (by simp)

/-- The preferred end of two patterns in a row is that of the second one at an end of the first. -/
theorem exists_head?_ends_of_seq {p q : Pattern} {c d : Cursor}
    (h : ((seq p q).ends c).head? = some d) : ∃ e ∈ p.ends c, (q.ends e).head? = some d := by
  rw [ends, List.head?_flatMap] at h
  exact List.exists_of_findSome?_eq_some h

@[simp] theorem ends_seq_empty (p : Pattern) (c : Cursor) : (seq p empty).ends c = p.ends c := by
  simp [ends]

/-! ## Matches in a text -/

/-- A match in a text is the one at the place where it starts. -/
theorem matchAt?_of_mem_allMatches (h : m ∈ p.allMatches text) :
    p.matchAt? ⟨m.before, m.text ++ m.after, []⟩ = some m :=
  matchAt?_of_mem_matchesFrom h

/-- A pattern that starts with the start of the text is found there or nowhere. -/
theorem findFrom_textStart (p : Pattern) (text : List Char) :
    (seq textStart p).findFrom [] text = (seq textStart p).matchAt? ⟨[], text, []⟩ := by
  have hnone : ∀ c before rest, (seq textStart p).findFrom (c :: before) rest = none := by
    intro c before rest
    induction rest generalizing c before with
    | nil => rfl
    | cons d rest ih => exact ih d (c :: before)
  cases text with
  | nil => rfl
  | cons c rest =>
    rw [findFrom, hnone]
    cases (seq textStart p).matchAt? ⟨[], c :: rest, []⟩ <;> rfl

/-- A match at a place in a text is selected if no match selected in front of it reaches over its
start. -/
theorem StaysInLine.mem_allMatches (hp : p.StaysInLine)
    (hm : p.matchAt? ⟨before, rest, []⟩ = some m) (htext : before.reverse ++ rest = text)
    (hfree : ∀ other ∈ p.allMatches text, other.start < m.start → other.stop ≤ m.start) :
    m ∈ p.allMatches text := by
  subst htext
  refine hp.mem_matchesFrom ?_ hfree
  rw [List.reverse_reverse, List.append_nil]
  exact hm

/-- Of two selected matches, the one that starts first ends before the other one starts. -/
theorem stop_le_start_of_mem_allMatches (hm : m ∈ p.allMatches text)
    (hother : other ∈ p.allMatches text) (hlt : m.start < other.start) :
    m.stop ≤ other.start := by
  have horder := (p.allMatches_inOrder text).pairwise_precedes
  obtain ⟨i, hi, rfl⟩ := List.getElem_of_mem hm
  obtain ⟨j, hj, rfl⟩ := List.getElem_of_mem hother
  rcases Nat.lt_trichotomy i j with hij | rfl | hij
  · exact (List.pairwise_iff_getElem.mp horder i j hi hj hij).stop_le_start
  · exact absurd hlt (Nat.lt_irrefl _)
  · have hle := (List.pairwise_iff_getElem.mp horder j i hj hi hij).stop_le_start
    have hstop : (p.allMatches text)[j].start ≤ (p.allMatches text)[j].stop :=
      Nat.le_add_right _ _
    omega

/-- Where a match is selected, it is the only one at its place. -/
theorem eq_of_mem_allMatches_of_matchAt? (hm : m ∈ p.allMatches text)
    (hother : p.matchAt? ⟨before, rest, []⟩ = some other) (htext : before.reverse ++ rest = text)
    (hstart : Text.utf8Size before = m.start) : other = m := by
  obtain ⟨-, hwhole⟩ := (p.allMatches_inOrder text).of_mem hm
  have hcut : before.reverse ++ rest = m.before.reverse ++ (m.text ++ m.after) :=
    htext.trans hwhole
  obtain ⟨hbefore, hrest⟩ := Text.eq_of_append_eq_append hcut (by
    rw [Text.utf8Size_reverse, Text.utf8Size_reverse]
    exact hstart)
  rw [List.reverse_inj.mp hbefore, hrest, matchAt?_of_mem_allMatches hm] at hother
  exact (Option.some.inj hother).symm

end SourceRepair.Pattern
