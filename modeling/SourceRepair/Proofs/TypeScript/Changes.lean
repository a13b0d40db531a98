import SourceRepair.Proofs.Rule.Counting
import SourceRepair.Proofs.TypeScript.SettledLines

/-!
# Every repair changes something

A repair is reported only if some match and its replacement differ. For each rule of the catalog
there is a kind of characters that all of its fixes add, or that all of them take away
(`loses_or_gains_of_mem_rules`), so what several fixes do to one text does not cancel out, and a
repair differs from the lines it replaces (`changed_ne`).

Where a rule only puts a mark behind a part of the match, it gains marks, because the rest of the
match holds none. The other rules are counted piece by piece.
-/

namespace SourceRepair.TypeScript

open Pattern CharClass

/-! ## A mark behind a part of the match -/

section Marks

variable {m : Match} {replacement : List Char}

theorem count_group_lt_semicolonAfter {name : String}
    (h : semicolonAfter name m = some replacement) :
    (m.group name).count ';' < replacement.count ';' := by
  obtain rfl := Option.some.inj h
  simp

theorem count_group_lt_terminate (h : terminate m = some replacement) :
    (m.group "body").count ';' < replacement.count ';' := by
  rw [eq_of_terminate h, List.count_append, Text.count_trimEnd (by decide)]
  simp

theorem count_lt_closeMember {member : List Char} (h : closeMember member = some replacement) :
    member.count ',' < replacement.count ',' := by
  rw [eq_of_closeMember h]
  simp

end Marks

theorem gains_missingTerminator : missingTerminator.Gains (· == ';') :=
  Rule.gains_of_group (fun _ hm => Reads.of_assertion hm) rfl (by decide) (by simp [OnlyReads])
    fun _ _ h => count_group_lt_terminate h

theorem gains_missingAssignmentTerminator : missingAssignmentTerminator.Gains (· == ';') :=
  Rule.gains_of_group (fun _ hm => Reads.of_assertion hm) rfl (by decide) (by simp [OnlyReads])
    fun _ _ h => count_group_lt_terminate h

theorem gains_importTrailingComma : importTrailingComma.Gains (· == ';') :=
  Rule.gains_of_group (fun _ hm => hm) rfl (by decide) (by simp [OnlyReads])
    fun _ _ h => count_group_lt_semicolonAfter h

theorem gains_exportListTrailingComma : exportListTrailingComma.Gains (· == ';') :=
  Rule.gains_of_group (fun _ hm => Reads.of_assertion hm) rfl (by decide) (by simp [OnlyReads])
    fun _ _ h => count_group_lt_semicolonAfter h

theorem gains_orphanedBraceAfterReturn : orphanedBraceAfterReturn.Gains (· == ';') :=
  Rule.gains_of_group (fun _ hm => Reads.of_assertion hm) rfl (by decide)
    (by simp [OnlyReads, closingBrace]) fun _ _ h => count_group_lt_semicolonAfter h

theorem gains_missingPropertyComma : missingPropertyComma.Gains (· == ',') :=
  Rule.gains_of_group (fun _ hm => Reads.of_assertion hm) rfl (by decide) (by simp [OnlyReads])
    fun _ _ h => count_lt_closeMember h

theorem gains_missingMemberComma : missingMemberComma.Gains (· == ',') :=
  Rule.gains_of_group (fun _ hm => Reads.of_assertion hm) rfl (by decide) (by simp [OnlyReads])
    fun m replacement h => by
      obtain rfl : m.group "brace" ++ [','] = replacement := Option.some.inj h
      simp

/-! ## Two parts of the match and what stands between them -/

/-- Blanks hold no other characters. -/
theorem IsBlank.count_eq_zero {text : List Char} (h : IsBlank text) {c : Char}
    (hc : ¬(c = ' ' ∨ c = '\t')) : text.count c = 0 :=
  List.count_eq_zero.mpr fun hmem => hc (h c hmem)

/-- The member above gets its comma, and the blanks behind it go. -/
theorem gains_commaBeforeMember : commaBeforeMember.Gains (· == ',') := by
  intro m hm replacement h
  obtain ⟨closed, hclosed, rfl⟩ := Option.map_eq_some_iff.mp h
  obtain ⟨above, _, _, htext, hgroups, hlate, -, hm⟩ :=
    Reads.group_seq (Reads.of_assertion hm) rfl (by decide)
  obtain ⟨trailing, _, rfl, htrailing, hm⟩ := Reads.seq_of_groupNames hm rfl
  obtain ⟨_, _, rfl, hlineFeed, hm⟩ := Reads.seq_of_groupNames hm rfl
  obtain ⟨member, _, _, rfl, rfl, -, -, hm⟩ := Reads.group_seq hm rfl (by decide)
  obtain ⟨_, _, rfl, ⟨rfl, -, -⟩, rfl, rfl⟩ := Reads.seq_of_groupNames hm rfl
  obtain ⟨rfl, -⟩ := reads_lit.mp hlineFeed
  have haboveGroup : m.group "prev" = above := by rw [Match.group, Match.group?, hgroups]; rfl
  have hmemberGroup : m.group "member" = member := by rw [Match.group, Match.group?, hgroups]; rfl
  have hcomma : above.count ',' < closed.count ',' := by
    rw [haboveGroup] at hclosed
    split at hclosed
    · obtain rfl := Option.some.inj hclosed
      simp
    · exact count_lt_closeMember hclosed
  have hblank := (isBlank_of_reads htrailing).count_eq_zero (c := ',') (by decide)
  show m.text.count ',' < (closed ++ '\n' :: m.group "member").count ','
  rw [htext, hmemberGroup]
  simp [List.count_append, hblank]
  omega

/-- The value gets its colon. -/
theorem gains_missingPropertyColon : missingPropertyColon.Gains (· == ':') := by
  intro m hm replacement h
  obtain ⟨indent, key, c, gap, value, htext, -, -, hc, hgap, hfix⟩ := missingPropertyColon_shape hm
  have hne : c ≠ ':' := by rcases hc with rfl | rfl <;> decide
  have hblank := hgap.count_eq_zero (c := ':') (by decide)
  show m.text.count ':' < replacement.count ':'
  rw [htext, hfix replacement h]
  simp [List.count_append, hblank, hne]

/-- The promise gets the word in front of it. -/
theorem gains_voidFloatingPromise : voidFloatingPromise.Gains fun _ => true := by
  intro m hm replacement h
  obtain rfl := Option.some.inj h
  obtain ⟨indent, _, _, htext, hgroups, -, -, hm⟩ :=
    Reads.group_seq (Reads.of_assertion hm) rfl (by decide)
  obtain ⟨statement, _, _, rfl, rfl, -, -, hm⟩ := Reads.group_seq hm rfl (by decide)
  obtain ⟨_, _, rfl, ⟨rfl, -, -⟩, rfl, rfl⟩ := Reads.seq_of_groupNames hm rfl
  have hindent : m.group "indent" = indent := by rw [Match.group, Match.group?, hgroups]; rfl
  have hstatement : m.group "stmt" = statement := by rw [Match.group, Match.group?, hgroups]; rfl
  rw [htext, hindent, hstatement]
  simp [List.countP_true]
  omega

/-! ## Code in place of code -/

/-- The loop variable gets its zero. -/
theorem gains_emptyForInitializer : emptyForInitializer.Gains (· == '0') := by
  intro m hm replacement h
  obtain ⟨gap₁, gap₂, keyword, gap₃, name, gap₄, gap₅, htext, hgap₁, hgap₂, hgap₃, hgap₄, hgap₅,
    -, -, rfl⟩ := emptyForInitializer_shape hm h
  have hblank : ∀ gap, IsBlank gap → gap.count '0' = 0 := fun gap hgap =>
    hgap.count_eq_zero (by decide)
  show m.text.count '0' < List.count '0' _
  rw [htext]
  simp [List.count_append, hblank, hgap₁, hgap₂, hgap₃, hgap₄, hgap₅]

/-- The timer gets a function around the call. -/
theorem gains_timerAsyncCallback : timerAsyncCallback.Gains fun _ => true := by
  intro m hm replacement h
  obtain rfl := Option.some.inj h
  obtain ⟨timer, callback, htext, htimer, hcallback, -⟩ := timerAsyncCallback_shape hm
  rw [htext, htimer, hcallback]
  simp [List.countP_true]

/-- The quotes become straight. -/
theorem loses_smartQuotes : smartQuotes.Loses "\u2018\u2019\u201C\u201D".toList.contains := by
  intro m hm replacement h
  obtain ⟨opening, body, closing, quote, htext, hopening, -, hquote, -, rfl⟩ :=
    smartQuotes_shape hm h
  have hcurly : "\u2018\u2019\u201C\u201D".toList.contains opening = true :=
    List.contains_iff_mem.mpr hopening
  have hstraight : "\u2018\u2019\u201C\u201D".toList.contains quote = false := by
    rcases hquote with rfl | rfl <;> decide
  rw [htext]
  simp only [List.countP_cons, List.countP_append, List.countP_nil, hcurly, hstraight, if_true,
    Bool.false_eq_true, if_false]
  omega

/-! ## Characters too many -/

theorem loses_duplicateComma : duplicateComma.Loses fun _ => true := by
  intro m hm replacement h
  obtain ⟨gap, more, htext, -, -, rfl⟩ := duplicateComma_shape hm h
  rw [htext]
  simp [List.countP_true]

theorem loses_duplicateSemicolon : duplicateSemicolon.Loses fun _ => true := by
  intro m hm replacement h
  obtain ⟨gap, more, htext, -, -, rfl⟩ := duplicateSemicolon_shape hm h
  rw [htext]
  simp [List.countP_true]

theorem loses_commaAsTerminator : commaAsTerminator.Loses (· == ',') := by
  intro m hm replacement h
  obtain ⟨comma, _, htext, hcomma, -⟩ := Reads.seq_of_groupNames hm rfl
  obtain ⟨rfl, -⟩ := reads_lit.mp hcomma
  obtain rfl := Option.some.inj h
  rw [htext]
  simp

theorem loses_braceLeadingComma : braceLeadingComma.Loses (· == ',') := by
  intro m hm replacement h
  obtain ⟨front, back, htext, -, -, rfl | rfl⟩ := braceLeadingComma_shape hm h <;>
  · rw [htext]
    simp

theorem loses_danglingMemberAccess : danglingMemberAccess.Loses fun _ => true := by
  intro m hm replacement h
  obtain ⟨back, _, htext, hback⟩ := Match.Of.exists_eq_group_append hm rfl (by decide)
  have hread : back ≠ [] := hback.ne_nil rfl
  obtain rfl := Option.some.inj h
  rw [htext]
  simp [List.countP_true, List.length_pos_iff.mpr hread]

theorem loses_emptyDestructuring : emptyDestructuring.Loses fun _ => true := by
  intro m hm replacement h
  obtain ⟨indent, keyword, gap₁, binding, gap₂, gap₃, expression, htext, -, -, -, -, -, -, -, -,
    rfl⟩ := emptyDestructuring_shape hm h
  rw [htext]
  simp [List.countP_true]
  omega

theorem loses_orphanedBrace : orphanedBrace.Loses fun _ => true :=
  Rule.loses_of_drop rfl fun _ _ h => (Option.some.inj h).symm

theorem loses_awaitNonPromise : awaitNonPromise.Loses fun _ => true :=
  Rule.loses_of_drop rfl fun _ _ h => (Option.some.inj h).symm

/-! ## All rules -/

/-- Of each rule it is known what its fixes add or take away; a string without its closing quote has
no fix. -/
theorem loses_or_gains_of_mem_rules {rule : Rule} (h : rule ∈ catalog.rules) :
    ∃ kind, rule.Loses kind ∨ rule.Gains kind := by
  rw [rules_eq] at h
  simp only [List.mem_cons, List.not_mem_nil, or_false] at h
  rcases h with rfl | rfl | rfl | rfl | rfl | rfl | rfl | rfl | rfl | rfl | rfl | rfl | rfl | rfl |
    rfl | rfl | rfl | rfl | rfl | rfl | rfl | rfl | rfl
  · exact ⟨_, .inl loses_duplicateComma⟩
  · exact ⟨_, .inl loses_duplicateSemicolon⟩
  · exact ⟨_, .inr gains_missingTerminator⟩
  · exact ⟨_, .inr gains_missingAssignmentTerminator⟩
  · exact ⟨_, .inr gains_importTrailingComma⟩
  · exact ⟨_, .inr gains_exportListTrailingComma⟩
  · exact ⟨_, .inl loses_commaAsTerminator⟩
  · exact ⟨_, .inr gains_missingPropertyColon⟩
  · exact ⟨_, .inr gains_commaBeforeMember⟩
  · exact ⟨_, .inr gains_missingPropertyComma⟩
  · exact ⟨_, .inr gains_missingMemberComma⟩
  · exact ⟨_, .inl loses_danglingMemberAccess⟩
  · exact ⟨_, .inr gains_orphanedBraceAfterReturn⟩
  · exact ⟨_, .inl loses_orphanedBrace⟩
  · exact ⟨_, .inr gains_emptyForInitializer⟩
  · exact ⟨_, .inl loses_braceLeadingComma⟩
  · exact ⟨_, .inl loses_braceLeadingComma⟩
  · exact ⟨_, .inl loses_smartQuotes⟩
  · exact ⟨fun _ => true, .inl fun _ _ _ h => absurd h (Option.some_ne_none _).symm⟩
  · exact ⟨_, .inl loses_emptyDestructuring⟩
  · exact ⟨_, .inl loses_awaitNonPromise⟩
  · exact ⟨_, .inr gains_voidFloatingPromise⟩
  · exact ⟨_, .inr gains_timerAsyncCallback⟩

theorem rewrite_ne {rule : Rule} (hrule : rule ∈ catalog.rules) {text result : List Char}
    (h : rule.rewrite text = .changed result) : result ≠ text := by
  obtain ⟨kind, hloses | hgains⟩ := loses_or_gains_of_mem_rules hrule
  · exact hloses.ne h
  · exact hgains.ne h

/-- A repair differs from what it replaces, which is the current line, or the line above and the
current one with a line feed between them. And what a rule of the catalog makes of a text, if it
changes it, is another text, however many matches it replaces. -/
theorem changed_ne :
    (∀ d previous current next repair,
      catalog.repair? d previous current next = some repair →
        (repair.linesBefore = 0 ∧ repair.text ≠ current) ∨
        (repair.linesBefore = 1 ∧ ∃ above, previous = some above ∧
          repair.text ≠ above ++ '\n' :: current)) ∧
    ∀ rule ∈ catalog.rules, ∀ text result, rule.rewrite text = .changed result →
      result ≠ text := by
  refine ⟨fun d previous current next repair h => ?_,
    fun rule hrule text result => rewrite_ne hrule⟩
  obtain ⟨rule, hrule, ⟨-, hlines, hchanged⟩ | ⟨-, hlines, above, habove, hchanged⟩⟩ :=
    Catalog.repair?_eq_some h
  · exact .inl ⟨hlines, rewrite_ne (Catalog.mem_rules_of_mem_rulesFor hrule) hchanged⟩
  · exact .inr ⟨hlines, above, habove,
      rewrite_ne (Catalog.mem_rules_of_mem_rulesFor hrule) hchanged⟩

/-- One loop gets four characters longer and the other one four shorter. -/
theorem changed_ne_twoLoops :
    let text := "for(let i=;for (  let  i  =  ;".toList
    let result := "for (let i = 0;for (let i = 0;".toList
    emptyForInitializer ∈ catalog.rules ∧ emptyForInitializer.rewrite text = .changed result ∧
      result.length = text.length ∧ result ≠ text := by
  intro text result
  have hrule : emptyForInitializer ∈ catalog.rules := by
    rw [rules_eq]
    simp only [List.mem_cons, true_or, or_true]
  have hchanged : emptyForInitializer.rewrite text = .changed result := by
    rw [Rule.rewrite, Rule.fixes, Rule.codeMatches_eq_computedMatches]
    decide +kernel
  exact ⟨hrule, hchanged, by decide, changed_ne.2 _ hrule _ _ hchanged⟩

end SourceRepair.TypeScript
