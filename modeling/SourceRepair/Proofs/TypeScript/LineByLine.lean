import SourceRepair.Proofs.Rule.Lines
import SourceRepair.Proofs.Scan.Rewriting
import SourceRepair.Proofs.TypeScript.StaticRules

/-!
# The static rules work line by line

A repair shows a static rule one line at a time, and a scan shows it the whole document. Where the
scanner stands in code at the start of every line the two come to the same:
`render_map_rewriteLine_eq_applyFixes`. Each of the static rules stays in a line, and its fix
depends on what its match read alone (`lineBound_of_mem_staticRules`), so a match is found and fixed
in the same way in both.
-/

namespace SourceRepair.TypeScript

/-- No static rule has a match over the end of a line. -/
theorem staysInLine_of_mem_staticRules {rule : Rule} (h : rule ∈ catalog.staticRules) :
    rule.pattern.StaysInLine := by
  have hall : ∀ rule ∈ catalog.staticRules, rule.pattern.StaysInLine := by
    rw [staticRules_eq]
    decide
  exact hall rule h

/-- A static rule sees no more of a text than single lines. -/
theorem lineBound_of_mem_staticRules {rule : Rule} (h : rule ∈ catalog.staticRules) :
    rule.LineBound := by
  refine ⟨staysInLine_of_mem_staticRules h, ?_⟩
  rw [staticRules_eq] at h
  simp only [List.mem_cons, List.not_mem_nil, or_false] at h
  rintro ⟨before, text, after, groups⟩ ⟨before', text', after', groups'⟩ htext hgroups
  obtain rfl : text' = text := htext
  obtain rfl : groups' = groups := hgroups
  rcases h with rfl | rfl | rfl | rfl | rfl | rfl | rfl | rfl <;> rfl

/-- Every static rule applies all of its fixes. -/
theorem firstOnly_of_mem_staticRules {rule : Rule} (h : rule ∈ catalog.staticRules) :
    rule.firstOnly = false := by
  have hall : ∀ rule ∈ catalog.staticRules, rule.firstOnly = false := by
    rw [staticRules_eq]
    decide
  exact hall rule h

/-- The lines of a document rewritten one by one, each with its terminator, make up the document
with the fixes of a scan for the same rule applied, if the scanner stands in code wherever a line
starts: no string, template literal or block comment goes on over the end of a line, and no template
hole is open there. -/
theorem render_map_rewriteLine_eq_applyFixes {rule : Rule} (hrule : rule ∈ catalog.staticRules)
    {text : List Char} (htext : ScanState.AtLineStarts (· = .initial) .initial text) :
    Line.render ((Line.ofText text).map rule.rewriteLine)
      = (applyFixes text
          ((scan catalog.staticRules text).filter (·.rule == rule.name))).1 := by
  have hbound := lineBound_of_mem_staticRules hrule
  have hlines := Line.asRead_ofText text
  have hmatches := Rule.codeMatches_render hbound.staysInLine hlines
  have hreplace : Match.replaceAll _ (rule.suggested (rule.matchesByLine .initial [] _)) = _ :=
    hbound.replaceAll_matchesByLine (firstOnly_of_mem_staticRules hrule) hlines (fun _ => by simp)
      (by rwa [Line.render_ofText])
  rw [Line.render_ofText] at hmatches hreplace
  rw [filter_scan catalog.nodup_names_staticRules hrule, rule.applyFixes_findings, hmatches,
    hreplace]

/-- Two lines with a comma too many each, behind a string that holds two commas as well. -/
theorem render_map_rewriteLine_eq_applyFixes_twoLines :
    let text := "f(',,',,b);\r\ng(c,,d);".toList
    duplicateComma ∈ catalog.staticRules ∧ ScanState.AtLineStarts (· = .initial) .initial text ∧
      Line.render ((Line.ofText text).map duplicateComma.rewriteLine)
        = (applyFixes text
            ((scan catalog.staticRules text).filter (·.rule == duplicateComma.name))).1 := by
  intro text
  have hrule : duplicateComma ∈ catalog.staticRules := by
    rw [staticRules_eq]
    exact List.mem_cons_self
  have hstart : ScanState.AtLineStarts (· = .initial) .initial text := by
    intro before c after htext
    -- there is only one line feed
    have hsplit : "f(',,',,b);\r".toList ++ '\n' :: "g(c,,d);".toList
        = before ++ '\n' :: c :: after := htext
    obtain ⟨rfl, -⟩ := Text.eq_of_append_lineFeed_eq hsplit (by decide) (by decide)
    decide
  exact ⟨hrule, hstart, render_map_rewriteLine_eq_applyFixes hrule hstart⟩

end SourceRepair.TypeScript
