import Mathlib
import SourceRepair.Edit.Plan

/-!
# How a repair comes about

A repair is the rewritten window of one of the rules for the diagnostic's code. `evaluate_changed`,
`repair?_eq_some` and `planLine?_eq_some` say all that can be known of a rewrite, a repair and a
planned edit from the fact that there is one; everything proved about plans starts from them.
`foldLine_invariant` carries a property of the current text through the repairs of one line.
-/

namespace SourceRepair

/-- A rule changes a window only if its guard admits it and the file has all its lines. -/
theorem Rule.evaluate_changed {rule : Rule} {context : LineContext} {text : List Char}
    (h : rule.evaluate context = .changed text) :
    ∃ window, rule.admits context ∧ rule.window.text? context = some window ∧
      rule.rewrite window = .changed text := by
  rw [evaluate] at h
  split at h
  · rename_i hadmits
    split at h
    · exact absurd h (by simp)
    · rename_i window hwindow
      exact ⟨window, hadmits, hwindow, h⟩
  · exact absurd h (by simp)

/-- A repair found among some rules is the rewrite of the window by one of them. -/
theorem Repair.first?_eq_some {context : LineContext} {rules : List Rule} {repair : Repair}
    (h : Repair.first? context rules = some repair) :
    ∃ rule ∈ rules, rule.evaluate context = .changed repair.text ∧
      repair.rule = rule.name ∧ repair.linesBefore = rule.window.linesBefore := by
  induction rules with
  | nil => exact absurd h (by simp [first?])
  | cons rule more ih =>
    have later : Repair.first? context more = some repair →
        ∃ rule' ∈ rule :: more, rule'.evaluate context = .changed repair.text ∧
          repair.rule = rule'.name ∧ repair.linesBefore = rule'.window.linesBefore := by
      intro hmore
      obtain ⟨rule', hmem, hrule'⟩ := ih hmore
      exact ⟨rule', List.mem_cons_of_mem _ hmem, hrule'⟩
    rw [first?] at h
    split at h
    · rename_i text hchanged
      obtain rfl := Option.some.inj h
      exact ⟨rule, List.mem_cons_self, hchanged, rfl, rfl⟩
    · exact absurd h (by simp)
    · exact later h
    · exact later h

namespace Catalog

variable {catalog : Catalog} {previous next : Option (List Char)}

/-- A repair rewrites either the current line, or the line above joined to the current one. -/
theorem repair?_eq_some {d : Diagnostic} {current : List Char} {repair : Repair}
    (h : catalog.repair? d previous current next = some repair) :
    ∃ rule ∈ catalog.rulesFor d.code,
      (rule.window = .line ∧ repair.linesBefore = 0 ∧
        rule.rewrite current = .changed repair.text) ∨
      (rule.window = .withPrevious ∧ repair.linesBefore = 1 ∧ ∃ above, previous = some above ∧
        rule.rewrite (above ++ '\n' :: current) = .changed repair.text) := by
  obtain ⟨rule, hmem, hchanged, -, hlines⟩ := Repair.first?_eq_some h
  obtain ⟨window, -, hwindow, hrewrite⟩ := Rule.evaluate_changed hchanged
  refine ⟨rule, hmem, ?_⟩
  cases hkind : rule.window with
  | line =>
    rw [hkind] at hlines hwindow
    obtain rfl := Option.some.inj hwindow
    exact Or.inl ⟨rfl, hlines, hrewrite⟩
  | withPrevious =>
    rw [hkind] at hlines hwindow
    obtain ⟨above, habove, rfl⟩ := Option.map_eq_some_iff.mp hwindow
    exact Or.inr ⟨rfl, hlines, above, habove, hrewrite⟩

/-- What the repairs of single lines keep is kept by the fold up to the first repair that takes in
the line above, and what that repair brings about holds of the result. -/
theorem foldLine_invariant (alone joined : List Char → Prop) {group : List Diagnostic}
    {text : List Char} (hstart : alone text)
    (hline : ∀ d ∈ group, ∀ text repair, alone text →
      catalog.repair? d previous text next = some repair → repair.linesBefore = 0 →
      alone repair.text)
    (hjoin : ∀ d ∈ group, ∀ text repair, alone text →
      catalog.repair? d previous text next = some repair → repair.linesBefore ≠ 0 →
      joined repair.text) :
    ((catalog.foldLine previous next group text).linesBefore = 0 →
        alone (catalog.foldLine previous next group text).text) ∧
      ((catalog.foldLine previous next group text).linesBefore ≠ 0 →
        joined (catalog.foldLine previous next group text).text) := by
  induction group generalizing text with
  | nil => exact ⟨fun _ => hstart, fun h => absurd rfl h⟩
  | cons d more ih =>
    have hline' := fun d' hd' => hline d' (List.mem_cons_of_mem d hd')
    have hjoin' := fun d' hd' => hjoin d' (List.mem_cons_of_mem d hd')
    rw [foldLine]
    split
    · exact ih hstart hline' hjoin'
    · rename_i repair hrepair
      split
      · rename_i hzero
        exact ih (hline d List.mem_cons_self _ _ hstart hrepair hzero) hline' hjoin'
      · -- the line above is taken in, and the fold ends here
        rename_i hzero
        exact ⟨fun h => absurd h hzero,
          fun _ => hjoin d List.mem_cons_self _ _ hstart hrepair hzero⟩

/-- Every rule of a folded line answers one of its diagnostics. -/
theorem foldLine_rules_length_le (group : List Diagnostic) (text : List Char) :
    (catalog.foldLine previous next group text).rules.length ≤ group.length := by
  induction group generalizing text with
  | nil => exact Nat.le_refl 0
  | cons d more ih =>
    rw [foldLine]
    split
    · exact Nat.le_succ_of_le (ih text)
    · split
      · exact Nat.succ_le_succ (ih _)
      · exact Nat.succ_le_succ (Nat.zero_le _)

/-- A folded line takes in at most one line above, and only one that there is. -/
theorem foldLine_linesBefore (catalog : Catalog) (previous next : Option (List Char))
    (group : List Diagnostic) (text : List Char) :
    (catalog.foldLine previous next group text).linesBefore = 0 ∨
      ((catalog.foldLine previous next group text).linesBefore = 1 ∧ previous.isSome) := by
  induction group generalizing text with
  | nil => exact Or.inl rfl
  | cons d more ih =>
    rw [foldLine]
    split
    · exact ih text
    · rename_i repair hrepair
      split
      · exact ih _
      · rename_i hzero
        obtain ⟨rule, -, ⟨-, h, -⟩ | ⟨-, h, above, habove, -⟩⟩ := repair?_eq_some hrepair
        · exact absurd h hzero
        · exact Or.inr ⟨h, by rw [habove]; rfl⟩

/-- An edit is planned for the line of the group's first diagnostic, which lies in the file and
above everything claimed, and replaces it by the folded line. -/
theorem planLine?_eq_some {lines : List (List Char)} {claimed : Option Nat}
    {group : List Diagnostic} {edit : PlannedEdit}
    (h : catalog.planLine? lines claimed group = some edit) :
    ∃ d current, group.head? = some d ∧ d.line ≠ 0 ∧ (∀ limit ∈ claimed, d.line < limit) ∧
      lines[d.line - 1]? = some current ∧
      let folded := catalog.foldLine (lineAbove? lines d.line) lines[d.line]? group current
      folded.rules ≠ [] ∧
        edit = ⟨d.line - folded.linesBefore, d.line, Text.pieces '\n' folded.text,
          folded.rules⟩ := by
  simp only [planLine?, bind, Option.bind_eq_some_iff] at h
  obtain ⟨d, hd, h⟩ := h
  split at h
  · exact absurd h (by simp)
  · rename_i hbar
    obtain ⟨hzero, hclaimed⟩ := not_or.mp hbar
    obtain ⟨current, hcurrent, h⟩ := Option.bind_eq_some_iff.mp h
    split at h
    · exact absurd h (by simp)
    · rename_i hrules
      refine ⟨d, current, hd, hzero, ?_, hcurrent, ?_, (Option.some.inj h).symm⟩
      · intro limit hlimit
        obtain rfl := Option.mem_def.mp hlimit
        simpa using hclaimed
      · simpa using hrules

end Catalog

end SourceRepair
