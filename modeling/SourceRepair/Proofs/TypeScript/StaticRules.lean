import Mathlib
import SourceRepair.Edit.Repair
import SourceRepair.Proofs.Rule.Names
import SourceRepair.TypeScript.Rules

/-!
# The rules of the TypeScript catalog

`rules_eq` lists all rules that are tried for some code. Eight of them have neither a guard nor the
mark that they need a diagnostic. A scan goes through these in the order of `staticRules_eq`: the
universal ones first, then those of the codes in increasing order.

On a line that is a closing brace and nothing else the universal rules find nothing, so the two
rules for such braces decide (`repair?_closingBrace`).
-/

namespace SourceRepair.TypeScript

/-- All rules of the catalog; the one for a leading comma serves two codes. -/
theorem rules_eq : catalog.rules =
    [duplicateComma, duplicateSemicolon, missingTerminator, missingAssignmentTerminator,
      importTrailingComma, exportListTrailingComma, commaAsTerminator, missingPropertyColon,
      commaBeforeMember, missingPropertyComma, missingMemberComma, danglingMemberAccess,
      orphanedBraceAfterReturn, orphanedBrace, emptyForInitializer, braceLeadingComma,
      braceLeadingComma, smartQuotes, unterminatedString, emptyDestructuring, awaitNonPromise,
      voidFloatingPromise, timerAsyncCallback] := rfl

/-- The codes that have rules of their own, sorted. -/
theorem codes_eq : catalog.codes =
    ["@typescript-eslint/await-thenable", "@typescript-eslint/no-floating-promises",
      "@typescript-eslint/no-misused-promises", "TS1002", "TS1003", "TS1005", "TS1109", "TS1127",
      "TS1128", "TS1136", "no-empty-pattern"] := by
  -- a sorted list is known from its elements
  have hsorted : (catalog.registered.map (·.1)).mergeSort (· ≤ ·) =
      ["@typescript-eslint/await-thenable", "@typescript-eslint/no-floating-promises",
        "@typescript-eslint/no-misused-promises", "TS1002", "TS1003"]
      ++ List.replicate 9 "TS1005"
      ++ ["TS1109", "TS1109", "TS1127", "TS1128", "TS1128", "TS1136", "no-empty-pattern"] := by
    have hantisymm : ∀ a b : String, a ≤ b → b ≤ a → a = b := fun _ _ => le_antisymm
    apply List.Perm.eq_of_pairwise (fun a b _ _ => hantisymm a b)
    · have hle : ∀ a b c : String, decide (a ≤ b) = true → decide (b ≤ c) = true →
          decide (a ≤ c) = true := by
        intro a b c hab hbc
        exact decide_eq_true (le_trans (of_decide_eq_true hab) (of_decide_eq_true hbc))
      have htotal : ∀ a b : String, (decide (a ≤ b) || decide (b ≤ a)) = true := by
        intro a b
        simpa using le_total a b
      exact (List.pairwise_mergeSort hle htotal _).imp of_decide_eq_true
    · decide +kernel
    · exact (List.mergeSort_perm _ _).trans (by decide +kernel)
  rw [Catalog.codes, hsorted]
  decide +kernel

/-- The rules that a scan goes through. -/
theorem staticRules_eq : catalog.staticRules =
    [duplicateComma, duplicateSemicolon, importTrailingComma, exportListTrailingComma,
      emptyForInitializer, braceLeadingComma, smartQuotes, emptyDestructuring] := by
  rw [Catalog.staticRules, Catalog.allRules, codes_eq]
  rfl

/-- A closing brace on a line of its own is left to the rules for it. -/
theorem repair?_closingBrace {d : Diagnostic} (hcode : d.code = "TS1128")
    (previous next : Option (List Char)) :
    catalog.repair? d previous ['}'] next
      = Repair.first? ⟨previous, ['}'], next, some d⟩
        [orphanedBraceAfterReturn, orphanedBrace] := by
  have hcomma : duplicateComma.evaluate ⟨previous, ['}'], next, some d⟩ = .unmatched :=
    show duplicateComma.rewrite ['}'] = .unmatched by cbv
  have hsemicolon : duplicateSemicolon.evaluate ⟨previous, ['}'], next, some d⟩ = .unmatched :=
    show duplicateSemicolon.rewrite ['}'] = .unmatched by cbv
  have hrules : catalog.rulesFor "TS1128"
      = [duplicateComma, duplicateSemicolon, orphanedBraceAfterReturn, orphanedBrace] := rfl
  rw [Catalog.repair?, hcode, hrules, Repair.first?, hcomma, Repair.first?, hsemicolon]

end SourceRepair.TypeScript
