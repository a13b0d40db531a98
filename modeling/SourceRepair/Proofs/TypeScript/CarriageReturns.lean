import SourceRepair.Proofs.Scan.Computed
import SourceRepair.Proofs.Scan.LineEndings
import SourceRepair.Proofs.TypeScript.LineByLine
import SourceRepair.Proofs.TypeScript.LineEnds

/-!
# The static rules and carriage returns

A scan of a document with the static rules should not depend on the kind of its line ends, and it
does not where no string goes on over the end of a line: `staticScan_withReturns`. A string that is
continued by a backslash is one only if a line feed stands directly behind the backslash
(`staticScan_withReturns_not_continued`).
-/

namespace SourceRepair.TypeScript

/-- A fix of a static rule has no line feed that its match does not have. -/
theorem lineFeed_mem_of_suggest? {rule : Rule} (hrule : rule ∈ catalog.staticRules) (m : Match)
    (hm : m.Of rule.pattern) (replacement : List Char)
    (h : rule.suggest? m = some replacement) (hmem : '\n' ∈ replacement) : '\n' ∈ m.text := by
  rw [Rule.suggest?, Option.filter_eq_some_iff] at h
  exact ownLineEnds_of_mem_rules (Catalog.mem_rules_of_mem_staticRules hrule) hm h.1 '\n' hmem
    (Or.inl rfl)

/-- A scan of a text with carriage returns reports the rules, places and replacements that a scan of
the text without them does, and fixing the one text gives the other one fixed, with as many fixes,
if no string goes on over the end of a line. -/
theorem staticScan_withReturns {text : List Char} (hreturn : '\r' ∉ text)
    (hstart : ScanState.AtLineStarts ScanState.NotQuoted .initial text) :
    (scan catalog.staticRules (Text.withReturns text)).map Finding.report
        = (scan catalog.staticRules text).map Finding.report ∧
      applyFixes (Text.withReturns text) (scan catalog.staticRules (Text.withReturns text))
        = (Text.withReturns (applyFixes text (scan catalog.staticRules text)).1,
            (applyFixes text (scan catalog.staticRules text)).2) :=
  scan_withReturns (fun _ => lineBound_of_mem_staticRules) (fun _ => lineFeed_mem_of_suggest?)
    hreturn hstart

/-- A template literal over two lines, with a comma too many behind it and one inside it. -/
theorem staticScan_withReturns_template :
    let text := "f(\x60,,\n,,\x60,,b);".toList
    '\r' ∉ text ∧ ScanState.AtLineStarts ScanState.NotQuoted .initial text ∧
      (scan catalog.staticRules (Text.withReturns text)).map Finding.report
          = (scan catalog.staticRules text).map Finding.report ∧
        applyFixes (Text.withReturns text) (scan catalog.staticRules (Text.withReturns text))
          = (Text.withReturns (applyFixes text (scan catalog.staticRules text)).1,
              (applyFixes text (scan catalog.staticRules text)).2) := by
  intro text
  have hreturn : '\r' ∉ text := by decide
  have hstart : ScanState.AtLineStarts ScanState.NotQuoted .initial text := by
    intro before c after htext quote
    -- there is only one line feed
    have hsplit : "f(\x60,,".toList ++ '\n' :: ",,\x60,,b);".toList
        = before ++ '\n' :: c :: after := htext
    obtain ⟨rfl, -⟩ := Text.eq_of_append_lineFeed_eq hsplit (by decide) (by decide)
    have hstate : (ScanState.initial.after ("f(\x60,,".toList ++ ['\n'])).kind = .template := by
      decide
    rw [hstate]
    simp
  exact ⟨hreturn, hstart, staticScan_withReturns hreturn hstart⟩

/-- A backslash continues a string over a line feed, and the commas on the next line are part of it.
With a carriage return between the two the string ends with the line, and the commas are reported.
-/
theorem staticScan_withReturns_not_continued :
    ¬ ∀ text, '\r' ∉ text →
      (scan catalog.staticRules (Text.withReturns text)).map Finding.report
          = (scan catalog.staticRules text).map Finding.report ∧
        (applyFixes (Text.withReturns text)
            (scan catalog.staticRules (Text.withReturns text))).1
          = Text.withReturns (applyFixes text (scan catalog.staticRules text)).1 := by
  have hplain : computedFindings catalog.staticRules "const s = 'a \\\n,, b';".toList = [] := by
    rw [staticRules_eq]
    decide +kernel
  have hreturns : computedFindings catalog.staticRules
      (Text.withReturns "const s = 'a \\\n,, b';".toList) =
        [⟨"duplicate-comma", .error, 2, 1, ",,".toList, "Runs of commas collapse to one",
          some ⟨16, 18, [',']⟩⟩] := by
    rw [staticRules_eq]
    decide +kernel
  intro h
  have hreport := (h "const s = 'a \\\n,, b';".toList (by decide)).1
  rw [scan_eq_singleton hreturns, scan_eq_mergeSort, hplain, List.mergeSort_nil] at hreport
  exact absurd hreport (List.cons_ne_nil _ _)

end SourceRepair.TypeScript
