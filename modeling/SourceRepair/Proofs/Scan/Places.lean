import SourceRepair.Proofs.Pattern.Selection
import SourceRepair.Proofs.Scan.Rewriting

/-!
# The places of findings

A finding tells its place by line and column. In the text that was scanned this gives back the byte
offset where its match starts (`Finding.offsetIn_ofMatch`), and a scan lists its findings in the
order of these offsets (`scanPlaces_eq_mergeSort`). So two texts, however their lines are cut, have
the same findings at the same offsets if each rule finds something in code at the same offsets of
both: `filter_scanPlaces_eq`.
-/

namespace SourceRepair

open Text

/-! ## Offsets -/

namespace Text

/-- The size of what stands in front of the place that lies some line feeds and then some characters
into a text. -/
def sizeBefore : (lines columns : Nat) → List Char → Nat
  | 0, columns, text => utf8Size (text.take columns)
  | _ + 1, _, [] => 0
  | lines + 1, columns, c :: rest =>
    c.utf8Size + sizeBefore (if c = '\n' then lines else lines + 1) columns rest

/-- Full lines are skipped by their line feeds. -/
theorem sizeBefore_lines {above : List Char} (hlast : ∀ c ∈ above.getLast?, c = '\n')
    (columns : Nat) (rest : List Char) :
    sizeBefore (above.count '\n') columns (above ++ rest)
      = utf8Size above + utf8Size (rest.take columns) := by
  induction above with
  | nil =>
    rw [List.count_nil, List.nil_append, sizeBefore, utf8Size_nil, Nat.zero_add]
  | cons c above ih =>
    have hmem : '\n' ∈ c :: above := by
      have hsome := List.getLast?_eq_some_getLast (List.cons_ne_nil c above)
      exact hlast _ hsome ▸ List.mem_of_getLast? hsome
    obtain ⟨lines, hlines⟩ := Nat.exists_eq_succ_of_ne_zero (List.count_pos_iff.mpr hmem).ne'
    have hrest : (if c = '\n' then lines else lines + 1) = above.count '\n' := by
      rw [List.count_cons] at hlines
      by_cases hc : c = '\n' <;> simp [hc] at hlines ⊢ <;> omega
    have hlast' : ∀ d ∈ above.getLast?, d = '\n' := by
      intro d hd
      have hne : above ≠ [] := by
        rintro rfl
        exact absurd hd (by simp)
      exact hlast d (by rw [List.getLast?_cons_of_ne_nil hne]; exact hd)
    rw [hlines, List.cons_append, sizeBefore, hrest, ih hlast', utf8Size_cons, Nat.add_assoc]

/-- In front of a place stand full lines, and then what is on its own line. -/
theorem exists_above_onLine (front : List Char) : ∃ above onLine,
    front = above ++ onLine ∧ (∀ c ∈ above.getLast?, c = '\n') ∧ '\n' ∉ onLine ∧
    front.count '\n' = above.count '\n' ∧
    (front.reverse.takeWhile (· != '\n')).length = onLine.length := by
  have hsplit := List.takeWhile_append_dropWhile (p := (· != '\n')) (l := front.reverse)
  have hbreak := List.head?_dropWhile_not (· != '\n') front.reverse
  have hline : '\n' ∉ front.reverse.takeWhile (· != '\n') := fun hmem =>
    absurd (List.all_eq_true.mp List.all_takeWhile _ hmem) (by decide)
  generalize front.reverse.takeWhile (· != '\n') = line at *
  generalize front.reverse.dropWhile (· != '\n') = above at *
  have hfront : front = above.reverse ++ line.reverse := by
    rw [← List.reverse_append, hsplit, List.reverse_reverse]
  refine ⟨above.reverse, line.reverse, hfront, fun c hc => ?_, by simpa using hline, ?_,
    List.length_reverse.symm⟩
  · rw [List.getLast?_reverse] at hc
    rw [hc] at hbreak
    simpa using hbreak
  · rw [hfront, List.count_append, List.count_reverse (l := line),
      List.count_eq_zero_of_not_mem hline, Nat.add_zero]

/-- A place behind `front` is found by its line feeds and the characters on its line. -/
theorem sizeBefore_count (front back : List Char) :
    sizeBefore (front.count '\n') (front.reverse.takeWhile (· != '\n')).length (front ++ back)
      = utf8Size front := by
  obtain ⟨above, onLine, hfront, hlast, -, hcount, hlength⟩ := exists_above_onLine front
  rw [hcount, hlength, hfront, List.append_assoc, sizeBefore_lines hlast, utf8Size_append,
    List.take_left]

end Text

namespace Finding

/-- The byte offset of the place where a finding in a text starts. -/
def offsetIn (text : List Char) (finding : Finding) : Nat :=
  sizeBefore (finding.line - 1) (finding.column - 1) text

variable {text rest rest' : List Char} {m later : Match}

/-- The place of a finding is the one where its match starts. -/
theorem offsetIn_ofMatch (rule : Rule) (htext : text = m.before.reverse ++ rest) :
    (ofMatch rule m).offsetIn text = m.start := by
  have hplace := sizeBefore_count m.before.reverse rest
  rw [List.count_reverse, List.reverse_reverse, utf8Size_reverse, ← htext] at hplace
  exact hplace

/-- Two findings in a text are in the order of their offsets. -/
theorem positionLE_ofMatch (rule other : Rule) (htext : text = m.before.reverse ++ rest)
    (htext' : text = later.before.reverse ++ rest') :
    positionLE (ofMatch rule m) (ofMatch other later) = decide (m.start ≤ later.start) := by
  have hle : ∀ {m later : Match} {rest rest' : List Char} (rule other : Rule),
      text = m.before.reverse ++ rest → text = later.before.reverse ++ rest' →
      m.start ≤ later.start → positionLE (ofMatch rule m) (ofMatch other later) = true := by
    intro m later rest rest' rule other hm hlater hstart
    obtain ⟨between, hbefore, -⟩ := exists_of_append_eq_append (hm.symm.trans hlater) (by
      rw [utf8Size_reverse, utf8Size_reverse]
      exact hstart)
    have hlater : later.before = between.reverse ++ m.before := by
      rw [← List.reverse_reverse later.before, hbefore, List.reverse_append, List.reverse_reverse]
    exact positionLE_of_before_eq hlater rule other
  rw [Bool.eq_iff_iff, decide_eq_true_eq]
  constructor
  · intro hbefore
    by_contra hstart
    -- otherwise both would have the same line and column, and so the same offset
    have hbehind := hle other rule htext' htext (by omega)
    have hsame : (ofMatch rule m).line = (ofMatch other later).line ∧
        (ofMatch rule m).column = (ofMatch other later).column := by
      simp only [positionLE, Bool.or_eq_true, Bool.and_eq_true, decide_eq_true_eq, beq_iff_eq]
        at hbefore hbehind
      omega
    have hoffset := offsetIn_ofMatch rule htext
    rw [offsetIn, hsame.1, hsame.2, ← offsetIn, offsetIn_ofMatch other htext'] at hoffset
    omega
  · exact hle rule other htext htext'

end Finding

/-! ## What a scan reports where -/

namespace Rule

variable {rule : Rule} {text other : List Char}

/-- The offsets where the matches of a rule in code start. -/
def starts (rule : Rule) (text : List Char) : List Nat :=
  (rule.codeMatches text).map Match.start

theorem mem_starts {offset : Nat} :
    offset ∈ rule.starts text ↔ ∃ m ∈ rule.codeMatches text, m.start = offset :=
  List.mem_map

/-- The matches of a rule in code start one behind the other. -/
theorem starts_pairwise_lt (rule : Rule) (text : List Char) :
    (rule.starts text).Pairwise (· < ·) :=
  List.pairwise_map.mpr ((rule.pattern.matchesFrom_pairwise_start_lt false [] text).filter _)

/-- The first match of a rule in code is the one that starts before all others. -/
theorem head?_codeMatches_eq_some_iff {m : Match} :
    (rule.codeMatches text).head? = some m ↔
      m ∈ rule.codeMatches text ∧ ∀ n ∈ rule.codeMatches text, m.start ≤ n.start := by
  have hstarts := List.pairwise_map.mp (rule.starts_pairwise_lt text)
  cases hcodes : rule.codeMatches text with
  | nil => simp
  | cons first more =>
    rw [hcodes, List.pairwise_cons] at hstarts
    rw [List.head?_cons, Option.some_inj, List.forall_mem_cons]
    constructor
    · rintro rfl
      exact ⟨List.mem_cons_self, le_rfl, fun n hn => (hstarts.1 n hn).le⟩
    · rintro ⟨hm, hle, -⟩
      rcases List.mem_cons.mp hm with rfl | hlater
      · rfl
      · exact absurd (hstarts.1 m hlater) (Nat.not_lt.mpr hle)

/-- Starts in increasing order are known from where they are. -/
theorem filter_starts_eq {p : Nat → Bool}
    (h : ∀ offset, p offset = true → (offset ∈ rule.starts text ↔ offset ∈ rule.starts other)) :
    (rule.starts text).filter p = (rule.starts other).filter p := by
  refine ((rule.starts_pairwise_lt text).filter p).eq_of_mem_iff
    ((rule.starts_pairwise_lt other).filter p) ?_
  intro offset
  rw [List.mem_filter, List.mem_filter]
  exact and_congr_left (h offset)

end Rule

variable {rules : List Rule} {text other : List Char}

/-- The rules of the findings of a scan, with the offsets where they start. -/
def scanPlaces (rules : List Rule) (text : List Char) : List (String × Nat) :=
  (scan rules text).map fun finding => (finding.rule, finding.offsetIn text)

/-- The findings of a scan are sorted by offset. -/
theorem scanPlaces_eq_mergeSort (rules : List Rule) (text : List Char) :
    scanPlaces rules text
      = (rules.flatMap fun rule => (rule.starts text).map (rule.name, ·)).mergeSort
          fun a b => decide (a.2 ≤ b.2) := by
  have hplaces : ∀ rule : Rule, ((rule.codeMatches text).map (Finding.ofMatch rule)).map
      (fun finding => (finding.rule, finding.offsetIn text))
        = (rule.starts text).map (rule.name, ·) := by
    intro rule
    rw [Rule.starts, List.map_map, List.map_map]
    refine List.map_congr_left fun m hm => ?_
    exact congrArg (rule.name, ·) (Finding.offsetIn_ofMatch rule (Rule.of_mem_codeMatches hm).2.1)
  rw [scanPlaces, scan, List.map_mergeSort (s := fun a b => decide (a.2 ≤ b.2)), List.map_flatMap]
  · simp only [hplaces]
  · intro a ha b hb
    obtain ⟨rule, -, ha⟩ := List.mem_flatMap.mp ha
    obtain ⟨m, hm, rfl⟩ := List.mem_map.mp ha
    obtain ⟨rule', -, hb⟩ := List.mem_flatMap.mp hb
    obtain ⟨m', hm', rfl⟩ := List.mem_map.mp hb
    have htext := (Rule.of_mem_codeMatches hm).2.1
    have htext' := (Rule.of_mem_codeMatches hm').2.1
    rw [Finding.positionLE_ofMatch rule rule' htext htext', Finding.offsetIn_ofMatch rule htext,
      Finding.offsetIn_ofMatch rule' htext']

/-- Places of findings are the same in two texts, as far as they are in question, if they are the
same for each rule. -/
theorem filter_scanPlaces_eq {p : String × Nat → Bool}
    (h : ∀ rule ∈ rules, (rule.starts text).filter (fun offset => p (rule.name, offset))
      = (rule.starts other).filter fun offset => p (rule.name, offset)) :
    (scanPlaces rules text).filter p = (scanPlaces rules other).filter p := by
  have htrans : ∀ a b c : String × Nat, decide (a.2 ≤ b.2) = true → decide (b.2 ≤ c.2) = true →
      decide (a.2 ≤ c.2) = true := by
    simp only [decide_eq_true_eq]
    omega
  have htotal : ∀ a b : String × Nat, (decide (a.2 ≤ b.2) || decide (b.2 ≤ a.2)) = true := by
    simp only [Bool.or_eq_true, decide_eq_true_eq]
    omega
  rw [scanPlaces_eq_mergeSort, scanPlaces_eq_mergeSort, filter_mergeSort htrans htotal,
    filter_mergeSort htrans htotal, List.filter_flatMap, List.filter_flatMap]
  congr 1
  refine List.flatMap_congr fun rule hrule => ?_
  rw [List.filter_map, List.filter_map]
  exact congrArg (List.map (rule.name, ·)) (h rule hrule)

end SourceRepair
