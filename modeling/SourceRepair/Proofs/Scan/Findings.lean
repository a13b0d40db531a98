import SourceRepair.Proofs.Rule.Literals
import SourceRepair.Proofs.Scan.Places

/-!
# What a scan reports

The findings of a scan say what is there (`Finding.Faithful`): at the line and column that a finding
names, and at no other place, the matched text stands in code, and a fix replaces exactly this text
by another one. They are listed by their byte offsets, and at one offset in the order of the rules;
and the findings of one rule are all the matches of its search that start in code, one behind the
other. `scan_staticRules` puts this together for the rules of any catalog.

A scan sorts by lines and columns. `Text.IsPlace` says what these are without counting from the
left, and `Text.IsPlace.offset_eq_iff` that they are in step with the offsets. That tied findings
stay in the order of the rules is a matter of stable sorting (`pairwise_mergeSort_of_tied`): no rule
has two matches at one place, so tied findings are of different rules.
-/

namespace SourceRepair

open Text

/-! ## Lines and columns -/

namespace Text

/-- The place `offset` bytes into the text is in column `column` of line `line`: the line begins at
the start of the text or behind a line feed, goes on to the place without another one, and has so
many lines above it; all are counted from one. -/
def IsPlace (text : List Char) (line column offset : Nat) : Prop :=
  ∃ above onLine back, text = above ++ (onLine ++ back) ∧ (∀ c ∈ above.getLast?, c = '\n') ∧
    '\n' ∉ onLine ∧ line = above.count '\n' + 1 ∧ column = onLine.length + 1 ∧
    offset = utf8Size above + utf8Size onLine

variable {text : List Char} {line column offset line' column' offset' : Nat}

/-- A place is known by its line and column from what stands before it, nearest character first. -/
theorem isPlace_iff : IsPlace text line column offset ↔ ∃ before back,
    text = before.reverse ++ back ∧ line = lineAfter before ∧ column = columnAfter before ∧
      offset = utf8Size before := by
  constructor
  · rintro ⟨above, onLine, back, rfl, hlast, hline, rfl, rfl, rfl⟩
    have hon : ∀ c ∈ onLine.reverse, (c != '\n') = true := fun c hc => by
      simpa using fun heq : c = '\n' => hline (heq ▸ List.mem_reverse.mp hc)
    have habove : above.reverse.takeWhile (· != '\n') = [] := by
      rw [← List.head?_reverse] at hlast
      cases hreverse : above.reverse with
      | nil => rfl
      | cons c rest =>
        obtain rfl := hlast c (by rw [hreverse]; rfl)
        rfl
    refine ⟨onLine.reverse ++ above.reverse, back, by simp, ?_, ?_, by simp [Nat.add_comm]⟩
    · rw [lineAfter, List.count_append, List.count_reverse, List.count_reverse,
        List.count_eq_zero_of_not_mem hline, Nat.zero_add]
    · rw [columnAfter, List.takeWhile_append_of_pos hon, habove, List.append_nil,
        List.length_reverse]
  · rintro ⟨before, back, rfl, rfl, rfl, rfl⟩
    obtain ⟨above, onLine, hfront, hlast, hline, hcount, hlength⟩ :=
      exists_above_onLine before.reverse
    rw [List.count_reverse] at hcount
    rw [List.reverse_reverse] at hlength
    refine ⟨above, onLine, back, ?_, hlast, hline, by rw [lineAfter, hcount],
      by rw [columnAfter, hlength], ?_⟩
    · rw [hfront, List.append_assoc]
    · rw [← utf8Size_reverse before, hfront, utf8Size_append]

/-- Lines and columns are in step with byte offsets: of two places in a text either both are the
same or neither is. -/
theorem IsPlace.offset_eq_iff (h : IsPlace text line column offset)
    (h' : IsPlace text line' column' offset') :
    offset = offset' ↔ line = line' ∧ column = column' := by
  obtain ⟨before, back, htext, rfl, rfl, rfl⟩ := isPlace_iff.mp h
  obtain ⟨before', back', htext', rfl, rfl, rfl⟩ := isPlace_iff.mp h'
  constructor
  · intro hsize
    obtain ⟨hbefore, -⟩ := eq_of_append_eq_append (htext.symm.trans htext') (by
      rw [utf8Size_reverse, utf8Size_reverse]
      exact hsize)
    obtain rfl := List.reverse_inj.mp hbefore
    exact ⟨rfl, rfl⟩
  · rintro ⟨hline, hcolumn⟩
    -- the size of what stands before is a function of line and column
    have hsize := sizeBefore_count before.reverse back
    have hsize' := sizeBefore_count before'.reverse back'
    rw [← htext, List.count_reverse, List.reverse_reverse, utf8Size_reverse] at hsize
    rw [← htext', List.count_reverse, List.reverse_reverse, utf8Size_reverse] at hsize'
    rw [lineAfter, lineAfter] at hline
    rw [columnAfter, columnAfter] at hcolumn
    rw [← hsize, ← hsize', Nat.succ.inj hline, Nat.succ.inj hcolumn]

end Text

/-! ## Single findings -/

namespace Finding

/-- The byte offset where the text matched by a finding stops. -/
def stopIn (text : List Char) (finding : Finding) : Nat :=
  finding.offsetIn text + utf8Size finding.matched

/-- What a finding says of a text is so. The matched text stands there, and begins outside every
literal and comment; line and column are those of its place and of no other one; and a fix puts
something else in place of it, and of nothing more. -/
structure Faithful (text : List Char) (finding : Finding) : Prop where
  stands : ∃ front back, text = front ++ (finding.matched ++ back) ∧
    utf8Size front = finding.offsetIn text
  inCode : ∀ span ∈ literalSpans text,
    ¬(span.start ≤ finding.offsetIn text ∧ finding.offsetIn text < span.stop)
  isPlace : IsPlace text finding.line finding.column (finding.offsetIn text)
  place_unique : ∀ line column, IsPlace text line column (finding.offsetIn text) →
    line = finding.line ∧ column = finding.column
  offset_unique : ∀ offset, IsPlace text finding.line finding.column offset →
    offset = finding.offsetIn text
  fix : ∀ edit ∈ finding.fix, edit.start = finding.offsetIn text ∧
    edit.stop = finding.stopIn text ∧ edit.replacement ≠ finding.matched

variable {text : List Char} {rule : Rule} {m : Match}

theorem offsetIn_of_mem_codeMatches (hm : m ∈ rule.codeMatches text) :
    (ofMatch rule m).offsetIn text = m.start :=
  offsetIn_ofMatch rule (Rule.of_mem_codeMatches hm).2.1

theorem stopIn_of_mem_codeMatches (hm : m ∈ rule.codeMatches text) :
    (ofMatch rule m).stopIn text = m.stop := by
  rw [stopIn, offsetIn_of_mem_codeMatches hm]
  rfl

/-- The finding for a match in code is faithful. -/
theorem faithful_ofMatch (hm : m ∈ rule.codeMatches text) : (ofMatch rule m).Faithful text := by
  obtain ⟨-, htext, hcode⟩ := Rule.of_mem_codeMatches hm
  have hoffset := offsetIn_of_mem_codeMatches hm
  have hplace : IsPlace text (ofMatch rule m).line (ofMatch rule m).column
      ((ofMatch rule m).offsetIn text) :=
    isPlace_iff.mpr ⟨m.before, m.text ++ m.after, htext, rfl, rfl, hoffset⟩
  refine ⟨⟨m.before.reverse, m.after, htext, ?_⟩, fun span hspan hin => ?_, hplace,
    fun line column hother => ?_, fun offset hother => ?_, fun edit hedit => ?_⟩
  · rw [hoffset, utf8Size_reverse]
    rfl
  · rw [hoffset] at hin
    exact LiteralSpans.covers_eq_false_iff.mp hcode span hspan hin
  · exact (hother.offset_eq_iff hplace).mp rfl
  · exact (hother.offset_eq_iff hplace).mpr ⟨rfl, rfl⟩
  · obtain ⟨hsuggest, hstart, hstop⟩ := ofMatch_fix_eq_some hedit
    rw [Rule.suggest?, Option.filter_eq_some_iff] at hsuggest
    rw [hoffset, stopIn_of_mem_codeMatches hm]
    exact ⟨hstart, hstop, of_decide_eq_true hsuggest.2⟩

end Finding

/-! ## The order of the findings -/

/-- Elements of a list without repetitions are in the order of their indices. -/
theorem pairwise_idxOf_lt {names : List String} (h : names.Nodup) :
    names.Pairwise fun a b => names.idxOf a < names.idxOf b := by
  refine List.pairwise_iff_getElem.mpr fun i j hi hj hlt => ?_
  rw [h.idxOf_getElem i hi, h.idxOf_getElem j hj]
  exact hlt

section Order

variable {rules : List Rule} (hnames : (rules.map (·.name)).Nodup) (text : List Char)
include hnames

/-- Before they are sorted, findings at one place are in the order of the rules. -/
theorem flatMap_findings_pairwise :
    (rules.flatMap fun rule => (rule.codeMatches text).map (Finding.ofMatch rule)).Pairwise
      fun a b => a.offsetIn text = b.offsetIn text →
        (rules.map (·.name)).idxOf a.rule < (rules.map (·.name)).idxOf b.rule := by
  rw [List.pairwise_flatMap]
  constructor
  · -- one rule has no two findings at one place
    intro rule _
    rw [List.pairwise_map]
    have hstarts := List.pairwise_map.mp (rule.starts_pairwise_lt text)
    refine hstarts.imp_of_mem fun {m later} hm hlater hlt hsame => ?_
    rw [Finding.offsetIn_of_mem_codeMatches hm, Finding.offsetIn_of_mem_codeMatches hlater] at hsame
    exact absurd hsame (Nat.ne_of_lt hlt)
  · have hrules := List.pairwise_map.mp (pairwise_idxOf_lt hnames)
    refine hrules.imp fun {rule other} hlt a ha b hb => ?_
    obtain ⟨m, -, rfl⟩ := List.mem_map.mp ha
    obtain ⟨m', -, rfl⟩ := List.mem_map.mp hb
    exact fun _ => hlt

/-- Findings are listed by their offsets, and those at one place in the order of the rules. -/
theorem scan_pairwise_offsetIn :
    (scan rules text).Pairwise fun a b => a.offsetIn text ≤ b.offsetIn text ∧
      (a.offsetIn text = b.offsetIn text →
        (rules.map (·.name)).idxOf a.rule < (rules.map (·.name)).idxOf b.rule) := by
  have hsorted := pairwise_mergeSort_of_tied Finding.positionLE_trans Finding.positionLE_total
    (flatMap_findings_pairwise hnames text)
  refine List.Pairwise.imp_of_mem (fun {a b} ha hb hab => ?_) hsorted
  obtain ⟨hle, htied⟩ := hab
  obtain ⟨rule, -, m, hm, rfl⟩ := mem_scan.mp ha
  obtain ⟨other, -, later, hlater, rfl⟩ := mem_scan.mp hb
  have htext := (Rule.of_mem_codeMatches hm).2.1
  have htext' := (Rule.of_mem_codeMatches hlater).2.1
  rw [Finding.positionLE_ofMatch rule other htext htext', decide_eq_true_eq] at hle
  rw [Finding.positionLE_ofMatch other rule htext' htext, decide_eq_true_eq] at htied
  rw [Finding.offsetIn_of_mem_codeMatches hm, Finding.offsetIn_of_mem_codeMatches hlater] at htied ⊢
  exact ⟨hle, fun hsame => htied hsame.ge hsame⟩

/-- Of two findings of one rule the first one stops before the second one starts. -/
theorem scan_pairwise_stopIn :
    (scan rules text).Pairwise fun a b => a.rule = b.rule →
      a.stopIn text ≤ b.offsetIn text := by
  refine List.pairwise_iff_forall_sublist.mpr fun {a b} hab hsame => ?_
  obtain ⟨rule, hrule, m, -, rfl⟩ := mem_scan.mp (hab.subset List.mem_cons_self)
  -- both are among the findings of the rule, which are its matches from left to right
  have hboth : [Finding.ofMatch rule m, b].filter (·.rule == rule.name)
      = [Finding.ofMatch rule m, b] := by
    rw [List.filter_eq_self]
    have hname : b.rule = rule.name := hsame.symm
    simp [Finding.ofMatch, hname]
  have hsub := hab.filter (·.rule == rule.name)
  rw [hboth, filter_scan hnames hrule] at hsub
  have hprecedes : ((rule.codeMatches text).map (Finding.ofMatch rule)).Pairwise fun a b =>
      a.stopIn text ≤ b.offsetIn text := by
    refine List.pairwise_map.mpr ((rule.codeMatches_pairwise_precedes text).imp_of_mem ?_)
    intro m later hm hlater hprecedes
    rw [Finding.stopIn_of_mem_codeMatches hm, Finding.offsetIn_of_mem_codeMatches hlater]
    exact hprecedes.stop_le_start
  exact List.pairwise_iff_forall_sublist.mp hprecedes hsub

end Order

/-! ## All findings -/

/-- The matches of a rule in code are those of its search that start outside every literal and
comment. -/
theorem Rule.codeMatches_eq_filter (rule : Rule) (text : List Char) :
    rule.codeMatches text = (rule.pattern.allMatches text).filter fun m =>
      decide (∀ span ∈ literalSpans text, ¬(span.start ≤ m.start ∧ m.start < span.stop)) := by
  rw [codeMatches]
  congr 1
  funext m
  rw [Bool.eq_iff_iff, decide_eq_true_eq, Bool.not_eq_true', LiteralSpans.covers_eq_false_iff]

/-- The findings of a scan with the static rules of a catalog are faithful, and each is of one of
the rules. They are sorted by the offsets where they start, and at one offset by the rules. Those of
one rule do not overlap, and their ranges are those of all the matches of its search that start
outside literals and comments. -/
theorem Catalog.scan_staticRules (catalog : Catalog) (text : List Char) :
    let rules := catalog.staticRules
    let findings := scan rules text
    (∀ finding ∈ findings, finding.Faithful text ∧ ∃ rule ∈ rules, finding.rule = rule.name) ∧
    (findings.Pairwise fun a b => a.offsetIn text ≤ b.offsetIn text ∧
      (a.offsetIn text = b.offsetIn text →
        (rules.map (·.name)).idxOf a.rule < (rules.map (·.name)).idxOf b.rule)) ∧
    (findings.Pairwise fun a b => a.rule = b.rule → a.stopIn text ≤ b.offsetIn text) ∧
    ∀ rule ∈ rules,
      (findings.filter (·.rule == rule.name)).map (fun f => (f.offsetIn text, f.stopIn text))
        = ((rule.pattern.allMatches text).filter fun m =>
            decide (∀ span ∈ literalSpans text, ¬(span.start ≤ m.start ∧ m.start < span.stop))).map
          fun m => (m.start, m.stop) := by
  intro rules findings
  have hnames : (rules.map (·.name)).Nodup := catalog.nodup_names_staticRules
  refine ⟨fun finding hfinding => ?_, scan_pairwise_offsetIn hnames text,
    scan_pairwise_stopIn hnames text, fun rule hrule => ?_⟩
  · obtain ⟨rule, hrule, m, hm, rfl⟩ := mem_scan.mp hfinding
    exact ⟨Finding.faithful_ofMatch hm, rule, hrule, rfl⟩
  · rw [← rule.codeMatches_eq_filter]
    show ((scan rules text).filter _).map _ = _
    rw [filter_scan hnames hrule, List.map_map]
    refine List.map_congr_left fun m hm => ?_
    exact Prod.ext (Finding.offsetIn_of_mem_codeMatches hm) (Finding.stopIn_of_mem_codeMatches hm)

end SourceRepair
