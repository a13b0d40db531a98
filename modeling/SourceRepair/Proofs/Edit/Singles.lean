import SourceRepair.Proofs.Edit.Composition
import SourceRepair.Rule.Literal

/-!
# Plans against single repairs

Where no two diagnostics of a batch stand on one line, each group of a plan holds one of them, and
the plan repairs them one at a time (`planEdits_eq_repairEach`). The bounds of the file and the
lines around the diagnostic are then those that a single repair looks at. What a plan adds is that
it goes up the file and leaves out a diagnostic on a line that the edit before has taken in. It can
only be the very next one, because a repair takes in one line at most (`linesBefore_le_one`).
-/

namespace SourceRepair

/-- The edit that puts a repair in place of the window that ends at the given line. -/
def Repair.edit (repair : Repair) (line : Nat) : PlannedEdit :=
  ⟨line - repair.linesBefore, line, Text.pieces '\n' repair.text, [repair.rule]⟩

namespace Catalog

variable {catalog : Catalog} {lines : List (List Char)} {batch : List Diagnostic}

/-- The edits for the repairs of diagnostics taken one by one. A diagnostic on the line `claimed`,
the first line of the last edit, is passed over. -/
def repairEach (catalog : Catalog) (lines : List (List Char)) :
    Option Nat → List Diagnostic → List PlannedEdit
  | _, [] => []
  | claimed, d :: more =>
    if claimed = some d.line then repairEach catalog lines claimed more
    else
      match catalog.repairAt? lines d with
      | none => repairEach catalog lines claimed more
      | some repair =>
        repair.edit d.line :: repairEach catalog lines (some (repair.edit d.line).firstLine) more

/-- A repair takes in one line above at most. -/
theorem linesBefore_le_one {d : Diagnostic} {repair : Repair}
    (h : catalog.repairAt? lines d = some repair) : repair.linesBefore ≤ 1 := by
  rw [repairAt?] at h
  split at h
  · exact absurd h (by simp)
  · obtain ⟨current, -, hrepair⟩ := Option.bind_eq_some_iff.mp h
    obtain ⟨rule, -, ⟨-, hlines, -⟩ | ⟨-, hlines, -⟩⟩ := repair?_eq_some hrepair
    · omega
    · omega

/-- Edits are planned for groups of one diagnostic each, from the bottom up and all above what is
claimed, as single repairs. -/
theorem planGroups_singles {sorted : List Diagnostic} {claimed : Option Nat}
    (hsorted : sorted.Pairwise fun d later => later.line < d.line)
    (hclaimed : ∀ limit ∈ claimed, ∀ d ∈ sorted, d.line ≤ limit) :
    catalog.planGroups lines claimed (sorted.map ([·]))
      = catalog.repairEach lines claimed sorted := by
  induction sorted generalizing claimed with
  | nil => rfl
  | cons d more ih =>
    obtain ⟨habove, hmore⟩ := List.pairwise_cons.mp hsorted
    have hclaimed' : ∀ limit ∈ claimed, ∀ e ∈ more, e.line ≤ limit :=
      fun limit hlimit e he => hclaimed limit hlimit e (List.mem_cons_of_mem d he)
    -- the line is not below what is claimed, so it is claimed only as the first line of an edit
    have hany : claimed.any (· ≤ d.line) = true ↔ claimed = some d.line := by
      cases claimed with
      | none => simp
      | some limit =>
        have := hclaimed limit rfl d List.mem_cons_self
        simp only [Option.any_some, decide_eq_true_eq, Option.some.injEq]
        omega
    rw [List.map_cons, planGroups, planLine?_singleton, repairEach]
    by_cases hd : claimed = some d.line
    · rw [if_pos (hany.mpr hd), if_pos hd]
      exact ih hmore hclaimed'
    · rw [if_neg (hany.not.mpr hd), if_neg hd]
      cases hrepair : catalog.repairAt? lines d with
      | none => exact ih hmore hclaimed'
      | some repair =>
        have hlines := linesBefore_le_one hrepair
        show repair.edit d.line :: catalog.planGroups lines (some (d.line - repair.linesBefore)) _
          = _
        rw [ih hmore]
        · rfl
        · -- the lines further up are above the window of this repair, or are its first line
          intro limit hlimit e he
          obtain rfl := Option.some.inj hlimit
          have := habove e he
          omega

/-! ## Batches with their diagnostics on different lines -/

/-- In any order in which the lines do not increase, different lines decrease. -/
theorem line_lt_of_nodup {sorted : List Diagnostic} (hperm : sorted.Perm batch)
    (hsorted : sorted.Pairwise fun d later => later.line ≤ d.line)
    (h : (batch.map (·.line)).Nodup) :
    sorted.Pairwise fun d later => later.line < d.line := by
  have hne : sorted.Pairwise fun d later => d.line ≠ later.line :=
    List.pairwise_map.mp ((hperm.map _).nodup_iff.mpr h)
  exact (hsorted.and hne).imp fun ⟨hle, hne⟩ => Nat.lt_of_le_of_ne hle (Ne.symm hne)

/-- From the bottom up, different lines decrease. -/
theorem sortBottomUp_pairwise (h : (batch.map (·.line)).Nodup) :
    (Diagnostic.sortBottomUp batch).Pairwise fun d later => later.line < d.line := by
  refine line_lt_of_nodup (List.mergeSort_perm batch _) ?_ h
  exact (List.pairwise_mergeSort Diagnostic.bottomUpLE_trans Diagnostic.bottomUpLE_total
    batch).imp Diagnostic.line_le_of_bottomUpLE

/-- Diagnostics on different lines are in one order from the bottom up and by falling line. -/
theorem sortBottomUp_eq_of_nodup (h : (batch.map (·.line)).Nodup) :
    Diagnostic.sortBottomUp batch = batch.mergeSort fun d e => e.line ≤ d.line := by
  have hsorted : (batch.mergeSort fun d e => e.line ≤ d.line).Pairwise
      fun d later => later.line < d.line := by
    have htrans : ∀ a b c : Diagnostic, decide (b.line ≤ a.line) = true →
        decide (c.line ≤ b.line) = true → decide (c.line ≤ a.line) = true := fun a b c hab hbc =>
      decide_eq_true (Nat.le_trans (of_decide_eq_true hbc) (of_decide_eq_true hab))
    have htotal : ∀ a b : Diagnostic,
        (decide (b.line ≤ a.line) || decide (a.line ≤ b.line)) = true := fun a b => by
      simpa using Nat.le_total b.line a.line
    exact line_lt_of_nodup (List.mergeSort_perm batch _)
      ((List.pairwise_mergeSort htrans htotal batch).imp of_decide_eq_true) h
  refine List.Perm.eq_of_pairwise (fun d e _ _ hd he => ?_) (sortBottomUp_pairwise h) hsorted
    ((List.mergeSort_perm batch _).trans (List.mergeSort_perm batch _).symm)
  exact absurd hd (Nat.lt_asymm he)

/-- The groups of diagnostics on different lines hold one of them each. -/
theorem lineGroups_eq_singles (h : (batch.map (·.line)).Nodup) :
    lineGroups batch = (Diagnostic.sortBottomUp batch).map ([·]) := by
  have hflatten : ((Diagnostic.sortBottomUp batch).map ([·])).flatten
      = Diagnostic.sortBottomUp batch := by
    rw [← List.flatMap_def, List.flatMap_singleton']
  rw [lineGroups]
  nth_rewrite 1 [← hflatten]
  refine List.splitBy_flatten (by simp) (by simp) ?_
  -- the lines of two groups that follow each other differ
  refine (List.pairwise_map.mpr ((sortBottomUp_pairwise h).imp fun {d later} hlt => ?_)).isChain
  exact ⟨by simp, by simp, beq_false_of_ne (Nat.ne_of_gt hlt)⟩

/-- The plan for diagnostics on different lines is made of the repairs for each of them, by falling
line and without those on a line that the edit before has taken in. -/
theorem planEdits_eq_repairEach (catalog : Catalog) (lines : List (List Char))
    {batch : List Diagnostic} (h : (batch.map (·.line)).Nodup) :
    catalog.planEdits lines batch
      = catalog.repairEach lines none (batch.mergeSort fun d e => e.line ≤ d.line) := by
  rw [planEdits_eq, lineGroups_eq_singles h, ← sortBottomUp_eq_of_nodup h]
  exact planGroups_singles (sortBottomUp_pairwise h) fun limit hlimit => absurd hlimit (by simp)

/-- The rule puts a line behind the one above it. The last diagnostic is outside the file, the one
for the second line is repaired, and the one for the first line is passed over. -/
theorem planEdits_eq_repairEach_join :
    let batch : List Diagnostic := [⟨⟨"a.ts"⟩, 1, 1, "TS1005", ""⟩, ⟨⟨"a.ts"⟩, 2, 1, "TS1005", ""⟩,
      ⟨⟨"a.ts"⟩, 7, 1, "TS1005", ""⟩]
    let catalog := ofPlainRules
      [{ name := "join", text := "\n", window := .withPrevious, fixer := some .drop }]
    (batch.map (·.line)).Nodup ∧
      catalog.planEdits ["a".toList, "b".toList] batch = catalog.repairEach
        ["a".toList, "b".toList] none (batch.mergeSort fun d e => e.line ≤ d.line) := by
  intro batch catalog
  have h : (batch.map (·.line)).Nodup := by decide
  exact ⟨h, planEdits_eq_repairEach catalog _ h⟩

end Catalog

end SourceRepair
