import SourceRepair.Proofs.Rule.Names
import SourceRepair.Proofs.Scan.Computed
import SourceRepair.Proofs.Sorting
import SourceRepair.Rule.Literal

/-!
# Rewriting a text and scanning it

A rule can be applied to a text in two ways: `Rule.rewrite` writes the fixes in while it goes
through the matches, and a scan lists findings, which are sorted, and whose fixes are sorted again
and applied with those that overlap left out. For the matches of one rule the sorting changes
nothing and nothing overlaps, because each match ends before the next one starts (`Match.Precedes`).
So the edits of a scan replace what a rewrite replaces (`applyFixes_appliedFindings`), and
`rewrite_iff_scan` compares all outcomes of the two.
-/

namespace SourceRepair

/-! ## Matches one after another -/

section Positions

variable {m later : Match} {between : List Char}

/-- A later place on the same line has no smaller column. -/
theorem columnAfter_le {before : List Char} (h : '\n' ∉ between) :
    columnAfter before ≤ columnAfter (between ++ before) := by
  have hall : ∀ c ∈ between, (c != '\n') = true := fun c hc => by
    simpa using fun heq : c = '\n' => h (heq ▸ hc)
  rw [columnAfter, columnAfter, List.takeWhile_append_of_pos hall, List.length_append]
  omega

/-- A match that starts at or before another one is found at or before it. -/
theorem positionLE_of_before_eq (hbefore : later.before = between ++ m.before)
    (rule other : Rule) :
    Finding.positionLE (Finding.ofMatch rule m) (Finding.ofMatch other later) = true := by
  have hline : lineAfter later.before = between.count '\n' + lineAfter m.before := by
    rw [hbefore, lineAfter, lineAfter, List.count_append, Nat.add_assoc]
  simp only [Finding.positionLE, Bool.or_eq_true, Bool.and_eq_true, decide_eq_true_eq, beq_iff_eq]
  show lineAfter m.before < lineAfter later.before ∨ lineAfter m.before = lineAfter later.before ∧
    columnAfter m.before ≤ columnAfter later.before
  by_cases hbreak : '\n' ∈ between
  · left
    have hcount := List.count_pos_iff.mpr hbreak
    omega
  · right
    refine ⟨?_, hbefore ▸ columnAfter_le hbreak⟩
    rw [hline, List.count_eq_zero_of_not_mem hbreak, Nat.zero_add]

theorem Match.Precedes.positionLE (h : m.Precedes later) (rule other : Rule) :
    Finding.positionLE (Finding.ofMatch rule m) (Finding.ofMatch other later) = true := by
  obtain ⟨between, hbefore⟩ := h
  rw [← List.append_assoc] at hbefore
  exact positionLE_of_before_eq hbefore rule other

end Positions

/-! ## The findings of one rule -/

namespace Finding

theorem positionLE_trans (a b c : Finding) (hab : positionLE a b = true)
    (hbc : positionLE b c = true) : positionLE a c = true := by
  simp only [positionLE, Bool.or_eq_true, decide_eq_true_eq, Bool.and_eq_true, beq_iff_eq]
    at hab hbc ⊢
  omega

theorem positionLE_total (a b : Finding) : (positionLE a b || positionLE b a) = true := by
  simp only [positionLE, Bool.or_eq_true, decide_eq_true_eq, Bool.and_eq_true, beq_iff_eq]
  omega

end Finding

namespace Rule

variable (rule : Rule) (text : List Char)

/-- The matches of a rule in code are found from left to right. -/
theorem codeMatches_pairwise_precedes : (rule.codeMatches text).Pairwise Match.Precedes :=
  ((rule.pattern.allMatches_inOrder text).sublist List.filter_sublist).pairwise_precedes

theorem findings_pairwise :
    ((rule.codeMatches text).map (Finding.ofMatch rule)).Pairwise
      fun a b => Finding.positionLE a b = true :=
  List.pairwise_map.mpr
    ((rule.codeMatches_pairwise_precedes text).imp fun hprecedes => hprecedes.positionLE rule rule)

end Rule

/-- A scan with one rule lists the matches of the rule in code. -/
theorem scan_singleton (rule : Rule) (text : List Char) :
    scan [rule] text = (rule.codeMatches text).map (Finding.ofMatch rule) := by
  rw [scan, List.flatMap_cons, List.flatMap_nil, List.append_nil]
  exact List.mergeSort_of_pairwise (rule.findings_pairwise text)

/-- In a scan with rules of different names, the findings for one of them are those of its matches,
from left to right. -/
theorem filter_scan {rules : List Rule} (hnames : (rules.map (·.name)).Nodup) {rule : Rule}
    (hrule : rule ∈ rules) (text : List Char) :
    (scan rules text).filter (·.rule == rule.name)
      = (rule.codeMatches text).map (Finding.ofMatch rule) := by
  obtain ⟨front, back, rfl⟩ := List.append_of_mem hrule
  have hothers : ∀ others : List Rule, rule.name ∉ others.map (·.name) →
      (others.flatMap fun r => (r.codeMatches text).map (Finding.ofMatch r)).filter
        (·.rule == rule.name) = [] := by
    intro others hname
    rw [List.filter_eq_nil_iff]
    intro finding hfinding
    obtain ⟨r, hr, hfinding⟩ := List.mem_flatMap.mp hfinding
    obtain ⟨m, -, rfl⟩ := List.mem_map.mp hfinding
    intro heq
    exact hname (List.mem_map.mpr ⟨r, hr, eq_of_beq heq⟩)
  rw [List.map_append, List.map_cons, List.nodup_append] at hnames
  obtain ⟨-, hback, hfront⟩ := hnames
  have hown : ((rule.codeMatches text).map (Finding.ofMatch rule)).filter (·.rule == rule.name)
      = (rule.codeMatches text).map (Finding.ofMatch rule) := by
    rw [List.filter_eq_self]
    intro finding hfinding
    obtain ⟨m, -, rfl⟩ := List.mem_map.mp hfinding
    exact beq_self_eq_true rule.name
  have hall : ((front ++ rule :: back).flatMap fun r =>
      (r.codeMatches text).map (Finding.ofMatch r)).filter (·.rule == rule.name)
        = (rule.codeMatches text).map (Finding.ofMatch rule) := by
    rw [List.flatMap_append, List.flatMap_cons, List.filter_append, List.filter_append, hown,
      hothers front fun h => hfront _ h _ List.mem_cons_self rfl,
      hothers back (List.nodup_cons.mp hback).1, List.nil_append, List.append_nil]
  rw [scan, filter_mergeSort Finding.positionLE_trans Finding.positionLE_total, hall]
  exact List.mergeSort_of_pairwise (rule.findings_pairwise text)

/-! ## Edits in order -/

namespace TextEdit

/-- The edit that replaces a match. -/
def ofFix (fix : Match × List Char) : TextEdit :=
  ⟨fix.1.start, fix.1.stop, fix.2⟩

/-- Edits that replace matches in order do what replacing the matches does, and none of them is
dropped. -/
theorem applyFrom_ofFix {p : Pattern} {before rest : List Char} {fixes : List (Match × List Char)}
    (h : Match.InOrder p before rest (fixes.map (·.1))) :
    applyFrom (Text.utf8Size before) rest (fixes.map ofFix)
      = (Match.replaceAll rest fixes, fixes.length) := by
  induction fixes generalizing before rest with
  | nil => rfl
  | cons fix more ih =>
    obtain ⟨m, replacement⟩ := fix
    obtain ⟨skipped, rfl, hbefore, -, hmore⟩ := h
    have hbefore' : m.before = skipped.reverse ++ before := hbefore
    have hstart : (ofFix (m, replacement)).start = Text.utf8Size (before.reverse ++ skipped) := by
      show Text.utf8Size m.before = _
      rw [hbefore', ← Text.utf8Size_reverse]
      simp only [List.reverse_append, List.reverse_reverse]
    have hstop : (ofFix (m, replacement)).stop = Text.utf8Size (m.text.reverse ++ m.before) := by
      show Text.utf8Size m.before + Text.utf8Size m.text = _
      rw [Text.utf8Size_append, Text.utf8Size_reverse, Nat.add_comm]
    have hplace : (ofFix (m, replacement)).stop
        = Text.utf8Size (before.reverse ++ (skipped ++ m.text)) := by
      rw [hstop, hbefore', ← Text.utf8Size_reverse]
      simp only [List.reverse_append, List.reverse_reverse, List.append_assoc]
    rw [← Text.utf8Size_reverse before, List.map_cons,
      applyFrom_cons_of_places _ hstart hplace, hstop, ih hmore, Match.replaceAll_cons]
    rfl

/-- Edits that replace matches in order are sorted. -/
theorem ofFix_pairwise {fixes : List (Match × List Char)}
    (h : (fixes.map (·.1)).Pairwise Match.Precedes) :
    (fixes.map ofFix).Pairwise fun a b => rangeLE a b = true := by
  refine List.pairwise_map.mpr ((List.pairwise_map.mp h).imp fun {fix later} hprecedes => ?_)
  have hle : (ofFix fix).stop ≤ (ofFix later).start := hprecedes.stop_le_start
  have hfix : (ofFix fix).start ≤ (ofFix fix).stop := Nat.le_add_right _ _
  have hlater : (ofFix later).start ≤ (ofFix later).stop := Nat.le_add_right _ _
  simp only [rangeLE, Bool.or_eq_true, decide_eq_true_eq, Bool.and_eq_true, beq_iff_eq]
  omega

end TextEdit

/-- Findings whose fixes replace matches in order have all of them applied. -/
theorem applyFixes_of_fixes_eq {p : Pattern} {text : List Char} {findings : List Finding}
    {fixes : List (Match × List Char)} (horder : Match.InOrder p [] text (fixes.map (·.1)))
    (hfixes : findings.filterMap (·.fix) = fixes.map TextEdit.ofFix) :
    applyFixes text findings = (Match.replaceAll text fixes, fixes.length) := by
  rw [applyFixes, hfixes,
    List.mergeSort_of_pairwise (TextEdit.ofFix_pairwise horder.pairwise_precedes)]
  exact TextEdit.applyFrom_ofFix horder

namespace Rule

variable (rule : Rule) (text : List Char)

/-- The matches with a fix stand in the text one after another. -/
theorem suggested_inOrder :
    Match.InOrder rule.pattern [] text ((rule.suggested (rule.codeMatches text)).map (·.1)) :=
  (rule.pattern.allMatches_inOrder text).sublist
    ((rule.map_fst_suggested_sublist _).trans List.filter_sublist)

/-- The fixes of the findings for some matches are those that the rule suggests. -/
theorem filterMap_fix_ofMatch (ms : List Match) :
    (ms.map (Finding.ofMatch rule)).filterMap (·.fix)
      = (rule.suggested ms).map TextEdit.ofFix := by
  rw [suggested, List.filterMap_map, List.map_filterMap]
  congr 1
  funext m
  show (Finding.ofMatch rule m).fix = _
  rw [Option.map_map]
  rfl

/-- The fixes of all findings for a rule's matches are applied. -/
theorem applyFixes_findings :
    applyFixes text ((rule.codeMatches text).map (Finding.ofMatch rule))
      = (Match.replaceAll text (rule.suggested (rule.codeMatches text)),
          (rule.suggested (rule.codeMatches text)).length) :=
  applyFixes_of_fixes_eq (rule.suggested_inOrder text) (rule.filterMap_fix_ofMatch _)

/-- The findings whose fixes a rewrite applies: all of them, or the first one that has a fix. -/
def appliedFindings (findings : List Finding) : List Finding :=
  if rule.firstOnly then (findings.find? (·.fix.isSome)).toList else findings

/-- The first result in a list is that of the first element that has one. -/
theorem filterMap_find?_isSome {α β : Type} (f : α → Option β) (l : List α) :
    (l.find? fun a => (f a).isSome).toList.filterMap f = (l.filterMap f).take 1 := by
  induction l with
  | nil => rfl
  | cons a rest ih =>
    cases h : f a with
    | none =>
      rw [List.find?_cons_of_neg (by simp [h]), List.filterMap_cons_none h]
      exact ih
    | some b =>
      rw [List.find?_cons_of_pos (by simp [h]), List.filterMap_cons_some h]
      simp [h]

/-- Applying the fixes of these findings is replacing the matches that a rewrite replaces. -/
theorem applyFixes_appliedFindings :
    (applyFixes text (rule.appliedFindings
      ((rule.codeMatches text).map (Finding.ofMatch rule)))).1
      = Match.replaceAll text (rule.fixes text) := by
  have hfixes := rule.filterMap_fix_ofMatch (rule.codeMatches text)
  have happlied : (rule.appliedFindings
      ((rule.codeMatches text).map (Finding.ofMatch rule))).filterMap (·.fix)
        = (rule.fixes text).map TextEdit.ofFix := by
    rw [appliedFindings, fixes_eq]
    split
    · rw [filterMap_find?_isSome, hfixes, List.map_take]
    · exact hfixes
  rw [applyFixes_of_fixes_eq (rule.fixes_inOrder text) happlied]

/-! ## The outcomes of a rewrite -/

variable {rule text}

theorem fixes_eq_nil_iff :
    rule.fixes text = [] ↔ rule.suggested (rule.codeMatches text) = [] := by
  rw [fixes_eq]
  split
  · cases rule.suggested (rule.codeMatches text) <;> simp
  · rfl

theorem rewrite_eq_unmatched_iff : rule.rewrite text = .unmatched ↔ rule.codeMatches text = [] := by
  rw [rewrite, ← List.isEmpty_iff]
  split
  · simp_all
  · split
    · simp_all
    · split <;> simp_all

theorem rewrite_eq_flagged_iff (h : rule.fixer = none) :
    rule.rewrite text = .flagged ↔ rule.codeMatches text ≠ [] := by
  rw [rewrite, ← List.isEmpty_eq_false_iff]
  split <;> simp_all

theorem rewrite_eq_unchanged_iff (h : rule.fixer.isSome) :
    rule.rewrite text = .unchanged ↔ rule.codeMatches text ≠ [] ∧ rule.fixes text = [] := by
  have hfixer : rule.fixer.isNone = false := by simpa using h
  rw [rewrite, hfixer, ← List.isEmpty_eq_false_iff]
  split
  · simp_all
  · cases hfixes : rule.fixes text <;> simp_all

end Rule

/-! ## A catalog with one rule -/

namespace Catalog

variable {catalog : Catalog} {rule : Rule}

/-- A scan with a catalog that holds only one rule, which is static, goes through that rule. -/
theorem staticRules_eq_singleton (hrule : rule ∈ catalog.rules)
    (honly : ∀ r ∈ catalog.rules, r = rule) (hstatic : rule.isStatic = true) :
    catalog.staticRules = [rule] := by
  have hnodup : catalog.staticRules.Nodup := (nodup_names_staticRules catalog).of_map _
  rw [← List.perm_singleton, List.perm_ext_iff_of_nodup hnodup (List.nodup_singleton rule)]
  intro r
  rw [List.mem_singleton]
  constructor
  · exact fun hr => honly r (mem_rules_of_mem_staticRules hr)
  · rintro rfl
    obtain ⟨first, hmem, hfirst, -⟩ := exists_first_of_mem (mem_listed_iff.mpr hrule)
    obtain rfl := honly first (mem_listed_iff.mp hmem)
    exact mem_staticRules_iff.mpr ⟨hfirst, hstatic⟩

/-- Rewriting a text by a static rule and scanning it with a catalog that holds only this rule come
to the same. All fixes that the findings carry are applied. A rule with a fixer changes the text if
at least one is, and the text that it makes is the one with these fixes, or with the first of them
if the rule applies only one; it leaves the text as it is if there are findings, none of them with a
fix, and does not match if there are none. A rule without a fixer flags a text with findings. -/
theorem rewrite_iff_scan (text : List Char) (hrule : rule ∈ catalog.rules)
    (honly : ∀ r ∈ catalog.rules, r = rule) (hstatic : rule.isStatic = true) :
    let findings := scan catalog.staticRules text
    let fixed := applyFixes text findings
    fixed.2 = findings.countP (·.fix.isSome) ∧
    (rule.fixer.isSome →
      (∀ result, rule.rewrite text = .changed result ↔
        0 < fixed.2 ∧ result = (applyFixes text (rule.appliedFindings findings)).1) ∧
      (rule.rewrite text = .unchanged ↔ findings ≠ [] ∧ ∀ f ∈ findings, f.fix = none) ∧
      (rule.rewrite text = .unmatched ↔ findings = [])) ∧
    (rule.fixer = none → (rule.rewrite text = .flagged ↔ findings ≠ [])) := by
  intro findings fixed
  have hfindings : findings = (rule.codeMatches text).map (Finding.ofMatch rule) := by
    show scan catalog.staticRules text = _
    rw [staticRules_eq_singleton hrule honly hstatic, scan_singleton]
  have hfixed : fixed = (Match.replaceAll text (rule.suggested (rule.codeMatches text)),
      (rule.suggested (rule.codeMatches text)).length) := by
    show applyFixes text findings = _
    rw [hfindings, rule.applyFixes_findings]
  have hcarried : findings.filterMap (·.fix)
      = (rule.suggested (rule.codeMatches text)).map TextEdit.ofFix := by
    rw [hfindings]
    exact rule.filterMap_fix_ofMatch _
  have hnone : findings = [] ↔ rule.codeMatches text = [] := by
    rw [hfindings, List.map_eq_nil_iff]
  have hnoFix : (∀ f ∈ findings, f.fix = none) ↔ rule.fixes text = [] := by
    rw [← List.filterMap_eq_nil_iff, hcarried, List.map_eq_nil_iff, Rule.fixes_eq_nil_iff]
  have hfix : 0 < fixed.2 ↔ rule.fixes text ≠ [] := by
    rw [hfixed, ne_eq, Rule.fixes_eq_nil_iff]
    exact List.length_pos_iff
  refine ⟨?count, fun hfixer => ⟨fun result => ?changed, ?unchanged, ?unmatched⟩,
    fun hfixer => ?flagged⟩
  case count =>
    have hcount := congrArg List.length hcarried
    rw [List.length_map, List.length_filterMap_eq_countP] at hcount
    rw [hfixed, hcount]
  case changed =>
    rw [Rule.rewrite_eq_changed_iff, hfix, hfindings, rule.applyFixes_appliedFindings]
  case unchanged =>
    rw [Rule.rewrite_eq_unchanged_iff hfixer, hnoFix, ne_eq, ne_eq, hnone]
  case unmatched => rw [Rule.rewrite_eq_unmatched_iff, hnone]
  case flagged => rw [Rule.rewrite_eq_flagged_iff hfixer, ne_eq, ne_eq, hnone]

/-- A rule that drops the first semicolon of a text. -/
def dropSemicolon : Rule :=
  PlainRule.toRule { name := "drop", text := ";", fixer := some .drop, firstOnly := true }

/-- Of two semicolons the rule drops the first one, as applying the fix of the first finding does.
-/
theorem rewrite_iff_scan_dropSemicolon :
    let catalog := empty.insertUniversal dropSemicolon
    let findings := scan catalog.staticRules "a;b;".toList
    (dropSemicolon ∈ catalog.rules ∧ (∀ r ∈ catalog.rules, r = dropSemicolon) ∧
      dropSemicolon.isStatic = true) ∧
    dropSemicolon.rewrite "a;b;".toList = .changed "ab;".toList ∧
    0 < (applyFixes "a;b;".toList findings).2 ∧
    "ab;".toList = (applyFixes "a;b;".toList (dropSemicolon.appliedFindings findings)).1 := by
  intro catalog findings
  have hrule : dropSemicolon ∈ catalog.rules := List.mem_cons_self
  have honly : ∀ r ∈ catalog.rules, r = dropSemicolon := fun r hr => List.mem_singleton.mp hr
  have hrewrite : dropSemicolon.rewrite "a;b;".toList = .changed "ab;".toList := by
    rw [Rule.rewrite, Rule.fixes, Rule.codeMatches_eq_computedMatches]
    decide +kernel
  have hscan := (rewrite_iff_scan "a;b;".toList hrule honly rfl).2.1 rfl
  exact ⟨⟨hrule, honly, rfl⟩, hrewrite, (hscan.1 _).mp hrewrite⟩

end Catalog

end SourceRepair
