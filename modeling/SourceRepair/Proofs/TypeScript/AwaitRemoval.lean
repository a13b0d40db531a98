import SourceRepair.Proofs.Edit.Dispatch
import SourceRepair.Proofs.Rule.Literals
import SourceRepair.Proofs.Scan.Places
import SourceRepair.Proofs.TypeScript.Shapes

/-!
# The `await` that a linter points at

The rule for an `await` on a value that is no promise looks for the word twice: its guard compares
the first one in code with the column of the diagnostic, and the fix removes the first one in code.
`IsFirstAwait` says which one this is without a search. The guard and the fix both take the first of
the rule's matches in code, and that is the one (`isFirstAwait_iff`). So the rule removes exactly
this `await`, with the blanks behind it, if the diagnostic points at it, and does nothing otherwise
(`evaluate_awaitNonPromise`).
-/

namespace SourceRepair.TypeScript

open Pattern CharClass Text

/-- The line reads `await` with blanks behind it. The word begins where no other word goes on, and
outside every literal and comment; `front` stands before it, and `back` behind the last of the
blanks. -/
structure IsAwait (line front gap back : List Char) : Prop where
  line_eq : line = front ++ ("await".toList ++ (gap ++ back))
  word : ∀ c ∈ front.getLast?, isWord c = false
  gap_ne_nil : gap ≠ []
  gap_blank : IsBlank gap
  back_head : ∀ c ∈ back.head?, ¬(c = ' ' ∨ c = '\t')
  inCode : ∀ span ∈ literalSpans line,
    ¬(span.start ≤ utf8Size front ∧ utf8Size front < span.stop)

/-- It is the first one in the line. -/
structure IsFirstAwait (line front gap back : List Char) : Prop extends
    IsAwait line front gap back where
  first : ∀ front' gap' back', IsAwait line front' gap' back' → front.length ≤ front'.length

/-! ## What the pattern matches -/

variable {before rest word gap back : List Char} {m : Match}

/-- A word goes on in front of a place only if a word character stands there. -/
theorem holds_wordBoundary_iff {c : Char} (hc : isWord c = true) :
    Assertion.wordBoundary.holds before (c :: rest) = true
      ↔ ∀ d ∈ before.head?, isWord d = false := by
  cases before <;> simp [Assertion.holds, hc]

theorem reads_awaitWord_iff {groups : Captures} : awaitWord.Reads before word rest groups ↔
    (∀ c ∈ before.head?, isWord c = false) ∧ groups = [] ∧
      ∃ gap, word = "await".toList ++ gap ∧ gap ≠ [] ∧ IsBlank gap := by
  constructor
  · intro h
    have hboundary := h.holds_of_assertion
    obtain ⟨letters, _, rfl, hletters, h⟩ := Reads.seq_of_groupNames h.of_assertion rfl
    obtain ⟨gap, _, rfl, hgap, rfl, rfl⟩ := Reads.seq_of_groupNames h rfl
    obtain ⟨rfl, -⟩ := reads_lit.mp hletters
    rw [List.append_nil] at hboundary ⊢
    refine ⟨(holds_wordBoundary_iff (by decide)).mp hboundary, rfl, gap, rfl, hgap.ne_nil rfl, ?_⟩
    exact hgap.forall_mem (by simp)
  · rintro ⟨hword, rfl, gap, rfl, hne, hblank⟩
    have hgap : ∀ {before rest}, Pattern.gap.Reads before gap rest [] :=
      Reads.oneOrMore (reads_blanks hblank) hne
    have hboundary : wordBoundary.Reads before [] ("await".toList ++ (gap ++ []) ++ rest) [] :=
      ⟨rfl, rfl, (holds_wordBoundary_iff (by decide)).mpr hword⟩
    have hdone : ∀ {before}, Pattern.empty.Reads before [] rest [] := ⟨rfl, rfl⟩
    have h := reads_seq_nil hboundary (reads_lit_seq (reads_seq_nil hgap hdone))
    simp only [List.append_nil, List.nil_append] at h
    exact h

/-- A match takes all the blanks there are. -/
theorem back_head_of_matchAt? (h : awaitWord.matchAt? ⟨before, rest, []⟩ = some m) :
    ∀ c ∈ m.after.head?, ¬(c = ' ' ∨ c = '\t') := by
  intro c hc hblank
  rw [matchAt?_eq, Option.map_eq_some_iff] at h
  obtain ⟨d, hd, rfl⟩ := h
  obtain ⟨_, -, hd⟩ := exists_head?_ends_of_seq hd
  obtain ⟨_, -, hd⟩ := exists_head?_ends_of_seq hd
  rw [List.foldr_cons, List.foldr_nil, ends_seq_empty] at hd
  obtain ⟨_, -, hd⟩ := exists_head?_ends_of_seq hd
  obtain ⟨more, hmore⟩ := List.head?_eq_some_iff.mp hc
  replace hmore : d.rest = c :: more := hmore
  have hround : (⟨c :: d.before, more, d.groups⟩ : Cursor) ∈ (oneOf " \t").ends d := by
    rw [oneOf, ends, hmore]
    rcases hblank with rfl | rfl <;> simp
  refine not_lt_of_head?_rounds hd _ hround ?_
  rw [hmore]
  exact Nat.lt_succ_self _

/-- The rule matches at a place if the word stands there. -/
theorem matchAt?_awaitWord_iff : awaitWord.matchAt? ⟨before, rest, []⟩ = some m ↔
    (∀ c ∈ before.head?, isWord c = false) ∧ ∃ gap back,
      rest = "await".toList ++ (gap ++ back) ∧ gap ≠ [] ∧ IsBlank gap ∧
      (∀ c ∈ back.head?, ¬(c = ' ' ∨ c = '\t')) ∧
      m = ⟨before, "await".toList ++ gap, back, []⟩ := by
  have hshape : ∀ {m}, awaitWord.matchAt? ⟨before, rest, []⟩ = some m →
      (∀ c ∈ before.head?, isWord c = false) ∧ ∃ gap back,
      rest = "await".toList ++ (gap ++ back) ∧ gap ≠ [] ∧ IsBlank gap ∧
      (∀ c ∈ back.head?, ¬(c = ' ' ∨ c = '\t')) ∧
      m = ⟨before, "await".toList ++ gap, back, []⟩ := by
    rintro ⟨before', text, after, groups⟩ h
    obtain ⟨hrest, rfl, hof⟩ := matchAt?_eq_some h
    obtain ⟨hword, hgroups, gap, htext, hne, hblank⟩ := reads_awaitWord_iff.mp hof
    obtain rfl : groups = [] := hgroups
    obtain rfl : text = "await".toList ++ gap := htext
    refine ⟨hword, gap, after, ?_, hne, hblank, back_head_of_matchAt? h, rfl⟩
    rw [← List.append_assoc]
    exact hrest
  refine ⟨hshape, ?_⟩
  rintro ⟨hword, gap, back, rfl, hne, hblank, hback, rfl⟩
  have hreads : awaitWord.Reads before ("await".toList ++ gap) back [] :=
    reads_awaitWord_iff.mpr ⟨hword, rfl, gap, rfl, hne, hblank⟩
  obtain ⟨m, hm⟩ := hreads.exists_matchAt?
  rw [List.append_assoc] at hm
  obtain ⟨-, gap', back', hrest, -, hblank', hback', rfl⟩ := hshape hm
  obtain ⟨rfl, rfl⟩ :=
    eq_of_whole_run_append_eq (List.append_cancel_left hrest) hblank hblank' hback hback'
  exact hm

/-! ## The matches of the rule -/

variable {line front : List Char}

/-- Of two `await` in a line the first one ends before the second one begins. -/
theorem stop_le_of_isAwait (h : IsAwait line front gap back) (hm : m ∈ awaitWord.allMatches line)
    (hlt : m.start < utf8Size front) : m.stop ≤ utf8Size front := by
  by_contra hover
  have hwhole : line = m.before.reverse ++ (m.text ++ m.after) :=
    ((awaitWord.allMatches_inOrder line).of_mem hm).2
  obtain ⟨-, gap', back', -, -, hblank, -, hshape⟩ :=
    matchAt?_awaitWord_iff.mp (matchAt?_of_mem_allMatches hm)
  have htext : m.text = "await".toList ++ gap' := congrArg Match.text hshape
  obtain ⟨between, hfront, hrest⟩ := exists_of_append_eq_append (hwhole.symm.trans h.line_eq) (by
    rw [utf8Size_reverse]
    exact hlt.le)
  have hsize : utf8Size front = m.start + utf8Size between := by
    rw [hfront, utf8Size_append, utf8Size_reverse]
    rfl
  have hnonempty : between ≠ [] := by
    rintro rfl
    rw [hsize, utf8Size_nil] at hlt
    omega
  rw [Match.stop, hsize] at hover
  rcases List.append_eq_append_iff.mp hrest with ⟨inner, hbetween, -⟩ | ⟨inner, hread, hstart⟩
  · rw [hbetween, utf8Size_append] at hover
    omega
  · cases inner with
    | nil =>
      rw [hread, List.append_nil] at hover
      omega
    | cons c inner =>
      -- the second word begins inside the first one, or in the blanks behind it
      obtain rfl : 'a' = c := (List.cons.inj hstart).1
      rw [htext] at hread
      rcases List.append_eq_append_iff.mp hread with ⟨late, -, hgap⟩ | ⟨late, hword, -⟩
      · exact absurd (hblank 'a' (by rw [hgap]; simp)) (by decide)
      · obtain ⟨d, hd⟩ : ∃ d, between.getLast? = some d :=
          ⟨_, List.getLast?_eq_some_getLast hnonempty⟩
        have hletters : "await".toList.all isWord = true := by decide
        have hmem : d ∈ "await".toList := by
          rw [hword]
          exact List.mem_append_left _ (List.mem_of_getLast? hd)
        have hnot := h.word d (by rw [hfront, List.getLast?_append_of_ne_nil _ hnonempty, hd]; rfl)
        exact absurd ((List.all_eq_true.mp hletters d hmem).symm.trans hnot) (by decide)

/-- The matches of the rule in code are the `await` of the line. -/
theorem mem_codeMatches_awaitNonPromise_iff : m ∈ awaitNonPromise.codeMatches line ↔
    ∃ front gap back, IsAwait line front gap back ∧
      m = ⟨front.reverse, "await".toList ++ gap, back, []⟩ := by
  rw [Rule.mem_codeMatches, LiteralSpans.covers_eq_false_iff]
  constructor
  · rintro ⟨hm, hcode⟩
    have hwhole : line = m.before.reverse ++ (m.text ++ m.after) :=
      ((awaitWord.allMatches_inOrder line).of_mem hm).2
    obtain ⟨hword, gap, back, -, hne, hblank, hback, hshape⟩ :=
      matchAt?_awaitWord_iff.mp (matchAt?_of_mem_allMatches hm)
    refine ⟨m.before.reverse, gap, back, ⟨?_, ?_, hne, hblank, hback, ?_⟩, ?_⟩
    · rw [hshape] at hwhole
      simpa using hwhole
    · rwa [List.getLast?_reverse]
    · rw [utf8Size_reverse]
      exact hcode
    · rwa [List.reverse_reverse]
  · rintro ⟨front, gap, back, h, rfl⟩
    have hmatch : awaitWord.matchAt? ⟨front.reverse, "await".toList ++ (gap ++ back), []⟩
        = some ⟨front.reverse, "await".toList ++ gap, back, []⟩ :=
      matchAt?_awaitWord_iff.mpr ⟨by rw [List.head?_reverse]; exact h.word, gap, back, rfl,
        h.gap_ne_nil, h.gap_blank, h.back_head, rfl⟩
    have hstart : Match.start ⟨front.reverse, "await".toList ++ gap, back, []⟩ = utf8Size front :=
      utf8Size_reverse front
    have hstays : awaitWord.StaysInLine := by decide
    refine ⟨hstays.mem_allMatches hmatch ?_ fun other hother hlt => ?_, ?_⟩
    · rw [List.reverse_reverse]
      exact h.line_eq.symm
    · rw [hstart] at hlt ⊢
      exact stop_le_of_isAwait h hother hlt
    · rw [hstart]
      exact h.inCode

/-- An `await` that starts at fewer bytes has fewer characters in front of it. -/
theorem IsAwait.length_lt {front' gap' back' : List Char} (h : IsAwait line front gap back)
    (h' : IsAwait line front' gap' back') (hlt : utf8Size front < utf8Size front') :
    front.length < front'.length := by
  obtain ⟨between, rfl, -⟩ := exists_of_append_eq_append (h.line_eq.symm.trans h'.line_eq) hlt.le
  have hnonempty : between ≠ [] := by
    rintro rfl
    exact absurd hlt (by simp)
  have hpos := List.length_pos_of_ne_nil hnonempty
  rw [List.length_append]
  omega

/-- The first `await` is the first match of the rule in code. -/
theorem isFirstAwait_iff : IsFirstAwait line front gap back ↔
    (awaitNonPromise.codeMatches line).head?
      = some ⟨front.reverse, "await".toList ++ gap, back, []⟩ := by
  rw [Rule.head?_codeMatches_eq_some_iff, mem_codeMatches_awaitNonPromise_iff]
  have hstart : ∀ front gap back : List Char,
      Match.start ⟨front.reverse, "await".toList ++ gap, back, []⟩ = utf8Size front :=
    fun front _ _ => utf8Size_reverse front
  constructor
  · intro h
    refine ⟨⟨front, gap, back, h.toIsAwait, rfl⟩, fun n hn => ?_⟩
    obtain ⟨front', gap', back', h', rfl⟩ := mem_codeMatches_awaitNonPromise_iff.mp hn
    rw [hstart, hstart]
    by_contra hlt
    exact absurd (h.first _ _ _ h')
      (Nat.not_le.mpr (h'.length_lt h.toIsAwait (Nat.not_le.mp hlt)))
  · rintro ⟨⟨front₀, gap₀, back₀, h, heq⟩, hfirst⟩
    obtain ⟨hfront, hgap, rfl, -⟩ := (Match.mk.injEq ..).mp heq
    obtain rfl := List.reverse_inj.mp hfront
    obtain rfl := List.append_cancel_left hgap
    refine ⟨h, fun front' gap' back' h' => ?_⟩
    have hle := hfirst _ (mem_codeMatches_awaitNonPromise_iff.mpr ⟨front', gap', back', h', rfl⟩)
    rw [hstart, hstart] at hle
    obtain ⟨between, rfl, -⟩ := exists_of_append_eq_append (h.line_eq.symm.trans h'.line_eq) hle
    exact List.length_append ▸ Nat.le_add_right _ _

/-! ## Guard and fix -/

variable {d : Diagnostic} {previous next : Option (List Char)}

/-- The rule removes its first match. -/
theorem rewrite_awaitNonPromise (hfirst : (awaitNonPromise.codeMatches line).head? = some m) :
    awaitNonPromise.rewrite line = .changed (m.before.reverse ++ m.after) := by
  obtain ⟨more, hcodes⟩ := List.head?_eq_some_iff.mp hfirst
  obtain ⟨hof, hwhole, -⟩ := Rule.of_mem_codeMatches (List.mem_of_head? hfirst)
  have hread : [] ≠ m.text := (Reads.ne_nil hof rfl).symm
  have hsuggest : awaitNonPromise.suggest? m = some [] :=
    Option.filter_some_pos (decide_eq_true hread)
  have hfixes : awaitNonPromise.fixes line = [(m, [])] := by
    rw [Rule.fixes_eq, hcodes, Rule.suggested, List.filterMap_cons, hsuggest]
    rfl
  rw [Rule.rewrite_eq_changed_iff, hfixes, hwhole, Match.replaceAll_cons]
  exact ⟨List.cons_ne_nil _ _, rfl⟩

/-- The guard lets the rule see the line if the diagnostic points at the first match. A column
behind the end of the line counts as the end. -/
theorem flagsFirstAwait_iff : flagsFirstAwait ⟨previous, line, next, some d⟩ = true ↔
    ∃ m, (awaitNonPromise.codeMatches line).head? = some m ∧
      m.before.length = min (d.column - 1) line.length := by
  have hfirst : ((awaitWord.allMatches line).find?
      fun m => !Span.covers (literalSpans line) m.start)
        = (awaitNonPromise.codeMatches line).head? := (List.head?_filter ..).symm
  simp only [flagsFirstAwait, hfirst]
  cases hmatch : (awaitNonPromise.codeMatches line).head? with
  | none => simp
  | some m =>
    -- the guard counts bytes, the diagnostic characters
    obtain ⟨-, hwhole, -⟩ := Rule.of_mem_codeMatches (List.mem_of_head? hmatch)
    have hbytes := utf8Size_take_eq_iff hwhole (d.column - 1)
    rw [utf8Size_reverse, List.length_reverse] at hbytes
    simp only [beq_iff_eq, Option.some.injEq, exists_eq_left']
    rw [eq_comm, Match.start, hbytes, eq_comm]

/-- A diagnostic with a column gets past the guard if it points at the first `await`. No `await`
starts at the end of the line, so a column behind the end misses it. -/
theorem flagsFirstAwait_iff_isFirstAwait (hcolumn : 1 ≤ d.column) :
    flagsFirstAwait ⟨previous, line, next, some d⟩ = true ↔
      ∃ front gap back, IsFirstAwait line front gap back ∧ d.column = front.length + 1 := by
  have hinside : ∀ {front gap back}, IsAwait line front gap back → front.length < line.length :=
    fun h => by rw [h.line_eq]; simp
  rw [flagsFirstAwait_iff]
  constructor
  · rintro ⟨m, hfirst, hlength⟩
    obtain ⟨front, gap, back, h, rfl⟩ :=
      mem_codeMatches_awaitNonPromise_iff.mp (List.mem_of_head? hfirst)
    refine ⟨front, gap, back, isFirstAwait_iff.mpr hfirst, ?_⟩
    have hfront := hinside h
    rw [List.length_reverse] at hlength
    omega
  · rintro ⟨front, gap, back, h, hplace⟩
    refine ⟨_, isFirstAwait_iff.mp h, ?_⟩
    have hfront := hinside h.toIsAwait
    rw [List.length_reverse]
    omega

/-- For a diagnostic with a column, the rule removes the first `await` in code, with the blanks
behind it, if this stands at the column, and otherwise does not match. -/
theorem evaluate_awaitNonPromise (hcolumn : 1 ≤ d.column) (previous next : Option (List Char))
    (line : List Char) :
    (∀ result, awaitNonPromise.evaluate ⟨previous, line, next, some d⟩ = .changed result ↔
      ∃ front gap back, IsFirstAwait line front gap back ∧ d.column = front.length + 1 ∧
        result = front ++ back) ∧
    ((¬∃ front gap back, IsFirstAwait line front gap back ∧ d.column = front.length + 1) →
      awaitNonPromise.evaluate ⟨previous, line, next, some d⟩ = .unmatched) := by
  have hrewrite : ∀ {front gap back}, IsFirstAwait line front gap back →
      awaitNonPromise.rewrite line = .changed (front ++ back) := by
    intro front gap back h
    rw [rewrite_awaitNonPromise (isFirstAwait_iff.mp h), List.reverse_reverse]
  have hflags : flagsFirstAwait ⟨previous, line, next, some d⟩ = true ↔ _ :=
    flagsFirstAwait_iff_isFirstAwait hcolumn
  have hevaluate : awaitNonPromise.evaluate ⟨previous, line, next, some d⟩
      = if flagsFirstAwait ⟨previous, line, next, some d⟩ then awaitNonPromise.rewrite line
        else .unmatched := rfl
  rw [hevaluate]
  refine ⟨fun result => ⟨fun hchanged => ?_, ?_⟩, fun hnone => if_neg (mt hflags.mp hnone)⟩
  · split at hchanged
    · rename_i hadmits
      obtain ⟨front, gap, back, h, hplace⟩ := hflags.mp hadmits
      rw [hrewrite h] at hchanged
      exact ⟨front, gap, back, h, hplace, (Rewrite.changed.inj hchanged).symm⟩
    · exact absurd hchanged (by simp)
  · rintro ⟨front, gap, back, h, hplace, rfl⟩
    rw [if_pos (hflags.mpr ⟨front, gap, back, h, hplace⟩), hrewrite h]

/-- The first `await` of the line stands in a string, and the column counts the letter in front of
it once, although it takes two bytes. -/
theorem evaluate_awaitNonPromise_behindString :
    let d : Diagnostic := ⟨default, 1, 14, "@typescript-eslint/await-thenable", ""⟩
    let line := "é('await 1', await  g());".toList
    1 ≤ d.column ∧
      awaitNonPromise.evaluate ⟨none, line, none, some d⟩
        = .changed "é('await 1', g());".toList := by
  intro d line
  have hfirst : IsFirstAwait line "é('await 1', ".toList "  ".toList "g());".toList := by
    rw [isFirstAwait_iff, Rule.codeMatches_eq_computedMatches]
    decide +kernel
  have hcolumn : 1 ≤ d.column := by decide
  refine ⟨hcolumn, ((evaluate_awaitNonPromise hcolumn none none line).1 _).mpr ?_⟩
  exact ⟨_, _, _, hfirst, by decide, by decide⟩

end SourceRepair.TypeScript
