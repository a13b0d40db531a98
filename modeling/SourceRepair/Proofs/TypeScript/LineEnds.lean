import SourceRepair.Proofs.Rule.Rewriting
import SourceRepair.Proofs.TypeScript.Shapes
import SourceRepair.Proofs.TypeScript.StaticRules

/-!
# Rules bring in no line ends

The fixes of the TypeScript rules are put together from groups of the match and from text without
line ends. So a fix has no line end that its match does not have (`ownLineEnds_of_mem_rules`), and
what a rule makes of a single line is a single line (`lineFeed_not_mem_of_rewrite`).
-/

namespace SourceRepair.TypeScript

/-- The text has no line ends but those of the match. -/
def OwnLineEnds (m : Match) (text : List Char) : Prop :=
  ∀ c ∈ text, c = '\n' ∨ c = '\r' → c ∈ m.text

namespace OwnLineEnds

variable {p : Pattern} {m : Match} {s t : List Char}

/-- Text without line ends. -/
theorem plain (h : ∀ c ∈ t, c ≠ '\n' ∧ c ≠ '\r') : OwnLineEnds m t := by
  intro c hc hend
  obtain ⟨hlineFeed, hreturn⟩ := h c hc
  exact absurd hend (not_or.mpr ⟨hlineFeed, hreturn⟩)

theorem group (hm : m.Of p) (name : String) : OwnLineEnds m (m.group name) :=
  fun _ hc _ => hm.mem_of_mem_group hc

theorem append (hs : OwnLineEnds m s) (ht : OwnLineEnds m t) : OwnLineEnds m (s ++ t) := by
  intro c hc hend
  rcases List.mem_append.mp hc with hc | hc
  · exact hs c hc hend
  · exact ht c hc hend

theorem trimEnd (ht : OwnLineEnds m t) : OwnLineEnds m (Text.trimEnd t) := by
  intro c hc hend
  rw [Text.trimEnd, List.mem_reverse] at hc
  have hmem : c ∈ t := List.mem_reverse.mp ((List.dropWhile_sublist _).subset hc)
  exact ht c hmem hend

end OwnLineEnds

section Fixers

variable {p : Pattern} {m : Match} {replacement : List Char}

theorem ownLineEnds_terminate (hm : m.Of p) (h : terminate m = some replacement) :
    OwnLineEnds m replacement := by
  rw [eq_of_terminate h]
  exact (OwnLineEnds.group hm "body").trimEnd.append (.plain (by simp))

theorem ownLineEnds_semicolonAfter {name : String} (hm : m.Of p)
    (h : semicolonAfter name m = some replacement) : OwnLineEnds m replacement := by
  obtain rfl := Option.some.inj h
  exact (OwnLineEnds.group hm name).append (.plain (by simp))

theorem ownLineEnds_insertColon (hm : m.Of p) (h : insertColon m = some replacement) :
    OwnLineEnds m replacement := by
  rw [eq_of_insertColon h]
  have hkey := (OwnLineEnds.group hm "indent").append (.group hm "key")
  exact (hkey.append (.plain (by simp))).append (.group hm "value")

theorem ownLineEnds_closeMember {member : List Char} (hmember : OwnLineEnds m member)
    (h : closeMember member = some replacement) : OwnLineEnds m replacement := by
  rw [eq_of_closeMember h]
  exact hmember.append (.plain (by simp))

/-- The line feed between two members is that of the match. -/
theorem ownLineEnds_separateMembers (hm : m.Of p) (hlineFeed : '\n' ∈ m.text)
    (h : separateMembers m = some replacement) : OwnLineEnds m replacement := by
  obtain ⟨closed, hclosed, rfl⟩ := Option.map_eq_some_iff.mp h
  have habove := OwnLineEnds.group hm "prev"
  have hclosed : OwnLineEnds m closed := by
    split at hclosed
    · obtain rfl := Option.some.inj hclosed
      exact habove.append (.plain (by simp))
    · exact ownLineEnds_closeMember habove hclosed
  refine hclosed.append fun c hc hend => ?_
  rcases List.mem_cons.mp hc with rfl | hc
  · exact hlineFeed
  · exact OwnLineEnds.group hm "member" c hc hend

theorem ownLineEnds_straightenQuotes (hm : m.Of p) (h : straightenQuotes m = some replacement) :
    OwnLineEnds m replacement := by
  rw [straightenQuotes] at h
  split at h
  · rename_i body hbody
    obtain rfl := Option.some.inj h
    have hgroup : OwnLineEnds m body := fun c hc _ => hm.mem_of_mem_group? hbody hc
    exact (OwnLineEnds.plain (t := ['\'']) (by simp)).append (hgroup.append (.plain (by simp)))
  · rename_i body _ hbody
    obtain rfl := Option.some.inj h
    have hgroup : OwnLineEnds m body := fun c hc _ => hm.mem_of_mem_group? hbody hc
    exact (OwnLineEnds.plain (t := ['"']) (by simp)).append (hgroup.append (.plain (by simp)))
  · exact absurd h (by simp)

theorem ownLineEnds_braceLeadingComma
    (h : braceLeadingComma.fixer.bind (· m) = some replacement) : OwnLineEnds m replacement := by
  obtain rfl := Option.some.inj h
  by_cases hgap : m.group "gap" = []
  · rw [if_pos hgap]
    exact .plain (by simp)
  · rw [if_neg hgap]
    exact .plain (by simp)

end Fixers

/-- The match of the rule that joins two members has the line feed between them. -/
theorem lineFeed_mem_of_commaBeforeMember {m : Match} (hm : m.Of commaBeforeMember.pattern) :
    '\n' ∈ m.text := by
  obtain ⟨above, _, _, htext, -, -, -, hm⟩ :=
    Pattern.Reads.group_seq (Pattern.Reads.of_assertion hm) rfl (by decide)
  obtain ⟨trailing, _, rfl, -, hm⟩ := Pattern.Reads.seq_of_groupNames hm rfl
  obtain ⟨lineFeed, _, rfl, hlineFeed, -⟩ := Pattern.Reads.seq_of_groupNames hm rfl
  obtain ⟨rfl, -⟩ := Pattern.reads_lit.mp hlineFeed
  rw [htext]
  simp

/-- A fix of a rule has no line ends but those of its match. -/
theorem ownLineEnds_of_mem_rules {rule : Rule} (hrule : rule ∈ catalog.rules) {m : Match}
    (hm : m.Of rule.pattern) {replacement : List Char}
    (h : rule.fixer.bind (· m) = some replacement) : OwnLineEnds m replacement := by
  have hgroup := OwnLineEnds.group hm
  have hconstant : ∀ text, (∀ c ∈ text, c ≠ '\n' ∧ c ≠ '\r') → some text = some replacement →
      OwnLineEnds m replacement := by
    intro text htext heq
    obtain rfl := Option.some.inj heq
    exact .plain htext
  rw [rules_eq] at hrule
  simp only [List.mem_cons, List.not_mem_nil, or_false] at hrule
  rcases hrule with rfl | rfl | rfl | rfl | rfl | rfl | rfl | rfl | rfl | rfl | rfl | rfl | rfl |
    rfl | rfl | rfl | rfl | rfl | rfl | rfl | rfl | rfl | rfl
  · exact hconstant [','] (by simp) h
  · exact hconstant [';'] (by simp) h
  · exact ownLineEnds_terminate hm h
  · exact ownLineEnds_terminate hm h
  · exact ownLineEnds_semicolonAfter hm h
  · exact ownLineEnds_semicolonAfter hm h
  · exact hconstant [';'] (by simp) h
  · exact ownLineEnds_insertColon hm h
  · exact ownLineEnds_separateMembers hm (lineFeed_mem_of_commaBeforeMember hm) h
  · exact ownLineEnds_closeMember (hgroup "prop") h
  · obtain rfl := Option.some.inj h
    exact (hgroup "brace").append (.plain (by simp))
  · obtain rfl := Option.some.inj h
    exact hgroup "target"
  · exact ownLineEnds_semicolonAfter hm h
  · exact hconstant [] (by simp) h
  · obtain rfl := Option.some.inj h
    have hhead := OwnLineEnds.append (.plain (t := "for (".toList) (by simp)) (hgroup "kw")
    have hname := (hhead.append (.plain (t := [' ']) (by simp))).append (hgroup "name")
    exact hname.append (.plain (by simp))
  · exact ownLineEnds_braceLeadingComma h
  · exact ownLineEnds_braceLeadingComma h
  · exact ownLineEnds_straightenQuotes hm h
  · exact absurd h (by simp [unterminatedString])
  · obtain rfl := Option.some.inj h
    exact (hgroup "indent").append (hgroup "expr")
  · exact hconstant [] (by simp) h
  · obtain rfl := Option.some.inj h
    exact ((hgroup "indent").append (.plain (by simp))).append (hgroup "stmt")
  · obtain rfl := Option.some.inj h
    have hhead := (hgroup "timer").append (.plain (t := "(() => void ".toList) (by simp))
    exact (hhead.append (hgroup "callback")).append (.plain (by simp))

/-- What a rule makes of a single line is a single line. -/
theorem lineFeed_not_mem_of_rewrite {rule : Rule} (hrule : rule ∈ catalog.rules)
    {line result : List Char} (h : rule.rewrite line = .changed result) (hline : '\n' ∉ line) :
    '\n' ∉ result := by
  intro hmem
  have hfix : ∀ m : Match, m.Of rule.pattern → ∀ replacement,
      rule.fixer.bind (· m) = some replacement → OwnLineEnds m replacement :=
    fun m hm replacement hreplacement => ownLineEnds_of_mem_rules hrule hm hreplacement
  exact hline (Rule.mem_of_rewrite_changed hfix h '\n' hmem (Or.inl rfl))

end SourceRepair.TypeScript
