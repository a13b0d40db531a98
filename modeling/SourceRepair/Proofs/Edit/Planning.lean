import SourceRepair.Proofs.Edit.Dispatch

/-!
# The shape of a plan

`planEdits_wellFormed` says what a plan looks like for any catalog, any lines and any batch: its
edits run from the bottom of the file up without overlap, each replaces one or two lines of the
file, and none counts more repairs than there are diagnostics on its line.

The edits are disjoint because of the claim alone. `planGroups` hands the first line of the last
edit on as the limit for the lines below which the next edit may be planned, so the argument does
not use that the groups come from the bottom up. The order of the batch matters only for the count:
it puts all diagnostics of a group on one line.
-/

namespace SourceRepair

/-- What every planned edit is like, for a file of the given lines and a batch of diagnostics. -/
structure PlannedEdit.WellFormed (lines : List (List Char)) (batch : List Diagnostic)
    (edit : PlannedEdit) : Prop where
  one_le_firstLine : 1 ≤ edit.firstLine
  firstLine_le_lastLine : edit.firstLine ≤ edit.lastLine
  lastLine_le_length : edit.lastLine ≤ lines.length
  lastLine_sub_firstLine : edit.lastLine - edit.firstLine ≤ 1
  reported : ∃ d ∈ batch, d.line = edit.lastLine
  replacement_ne_nil : edit.replacement ≠ []
  /-- No new line runs over a line end. -/
  replacement_singleLine : ∀ text ∈ edit.replacement, '\n' ∉ text
  rules_ne_nil : edit.rules ≠ []
  rules_length_le : edit.rules.length ≤ batch.countP (·.line == edit.lastLine)

namespace Catalog

variable {catalog : Catalog} {lines : List (List Char)} {batch : List Diagnostic}

/-! ## One edit -/

/-- The line above is there only for a line after the first. -/
theorem two_le_of_lineAbove? {number : Nat} (h : (lineAbove? lines number).isSome) :
    2 ≤ number := by
  by_contra hlt
  rw [lineAbove?, if_pos (by omega)] at h
  exact absurd h (by simp)

/-- An edit planned for a group that stands on one line of the batch is well-formed. A join on the
first line cannot happen, because a repair that takes in the line above needs that line. -/
theorem planLine?_wellFormed {claimed : Option Nat} {group : List Diagnostic} {edit : PlannedEdit}
    (hmem : ∀ d ∈ group, d ∈ batch)
    (hcount : ∀ d ∈ group, group.length ≤ batch.countP (·.line == d.line))
    (h : catalog.planLine? lines claimed group = some edit) : edit.WellFormed lines batch := by
  obtain ⟨d, current, hd, hzero, -, hcurrent, hrules, rfl⟩ := planLine?_eq_some h
  have hdgroup : d ∈ group := List.mem_of_head? hd
  have hlength : d.line - 1 < lines.length := (List.getElem?_eq_some_iff.mp hcurrent).1
  have hbefore := foldLine_linesBefore catalog (lineAbove? lines d.line) lines[d.line]? group
    current
  have hone : 1 ≤ d.line - (catalog.foldLine (lineAbove? lines d.line) lines[d.line]? group
      current).linesBefore := by
    rcases hbefore with h | ⟨h, habove⟩
    · omega
    · have := two_le_of_lineAbove? habove
      omega
  exact {
    one_le_firstLine := hone
    firstLine_le_lastLine := Nat.sub_le _ _
    lastLine_le_length := by
      show d.line ≤ lines.length
      omega
    lastLine_sub_firstLine := by
      show d.line - (d.line - _) ≤ 1
      rcases hbefore with h | ⟨h, -⟩ <;> omega
    reported := ⟨d, hmem d hdgroup, rfl⟩
    replacement_ne_nil := Text.pieces_ne_nil _ _
    replacement_singleLine := fun text htext => Text.not_mem_of_mem_pieces htext
    rules_ne_nil := hrules
    rules_length_le := Nat.le_trans (foldLine_rules_length_le group current) (hcount d hdgroup) }

/-! ## All edits -/

/-- Every edit of a plan is planned for one of the groups. -/
theorem mem_planGroups {groups : List (List Diagnostic)} {claimed : Option Nat}
    {edit : PlannedEdit} (h : edit ∈ catalog.planGroups lines claimed groups) :
    ∃ group ∈ groups, ∃ claimed', catalog.planLine? lines claimed' group = some edit := by
  induction groups generalizing claimed with
  | nil => exact absurd h (by simp [planGroups])
  | cons group more ih =>
    rw [planGroups] at h
    split at h
    · obtain ⟨group', hgroup', hedit⟩ := ih h
      exact ⟨group', List.mem_cons_of_mem _ hgroup', hedit⟩
    · rename_i first hfirst
      rcases List.mem_cons.mp h with rfl | h
      · exact ⟨group, List.mem_cons_self, claimed, hfirst⟩
      · obtain ⟨group', hgroup', hedit⟩ := ih h
        exact ⟨group', List.mem_cons_of_mem _ hgroup', hedit⟩

/-- An edit lies above the line that is claimed when it is planned. -/
theorem planLine?_lastLine_lt {claimed : Option Nat} {group : List Diagnostic}
    {edit : PlannedEdit} (h : catalog.planLine? lines claimed group = some edit) :
    edit.firstLine ≤ edit.lastLine ∧ ∀ limit ∈ claimed, edit.lastLine < limit := by
  obtain ⟨d, current, -, -, hclaimed, -, -, rfl⟩ := planLine?_eq_some h
  exact ⟨Nat.sub_le _ _, hclaimed⟩

/-- All edits of a plan lie above the line claimed before, and each lies above the ones planned
before it. -/
theorem planGroups_pairwise (groups : List (List Diagnostic)) (claimed : Option Nat) :
    (∀ edit ∈ catalog.planGroups lines claimed groups, ∀ limit ∈ claimed, edit.lastLine < limit) ∧
      (catalog.planGroups lines claimed groups).Pairwise
        fun edit later => later.lastLine < edit.firstLine := by
  induction groups generalizing claimed with
  | nil => simp [planGroups]
  | cons group more ih =>
    rw [planGroups]
    split
    · exact ih claimed
    · rename_i first hfirst
      -- the edits planned later stay above the first line of this one, which is claimed for them
      obtain ⟨habove, hpairwise⟩ := ih (some first.firstLine)
      obtain ⟨hle, hlimit⟩ := planLine?_lastLine_lt hfirst
      refine ⟨fun edit hedit limit hmem => ?_, List.pairwise_cons.mpr ⟨?_, hpairwise⟩⟩
      · rcases List.mem_cons.mp hedit with rfl | hedit
        · exact hlimit limit hmem
        · exact Nat.lt_trans (habove edit hedit _ rfl) (Nat.lt_of_le_of_lt hle (hlimit limit hmem))
      · exact fun later hlater => habove later hlater _ rfl

/-! ## The groups of a batch -/

/-- The diagnostics of a batch line by line, as a plan goes through them. -/
def lineGroups (batch : List Diagnostic) : List (List Diagnostic) :=
  (Diagnostic.sortBottomUp batch).splitBy fun a b => a.line == b.line

/-- All the groups together are the batch in another order. -/
theorem flatten_lineGroups_perm (batch : List Diagnostic) :
    (lineGroups batch).flatten.Perm batch := by
  rw [lineGroups, List.flatten_splitBy]
  exact List.mergeSort_perm _ _

/-- The diagnostics of a group are those of the batch. -/
theorem mem_of_mem_lineGroups {group : List Diagnostic} (h : group ∈ lineGroups batch)
    {d : Diagnostic} (hd : d ∈ group) : d ∈ batch :=
  (flatten_lineGroups_perm batch).mem_iff.mp (List.mem_flatten.mpr ⟨group, h, hd⟩)

/-- The diagnostics of a group stand on one line. -/
theorem line_eq_of_mem_lineGroups {group : List Diagnostic} (h : group ∈ lineGroups batch)
    {d e : Diagnostic} (hd : d ∈ group) (he : e ∈ group) : d.line = e.line := by
  have hchain : group.IsChain fun a b => a.line = b.line :=
    (List.isChain_of_mem_splitBy h).imp fun _ _ hab => eq_of_beq hab
  have : Std.Symm fun a b : Diagnostic => a.line = b.line := ⟨fun _ _ => Eq.symm⟩
  exact hchain.pairwise.forall_of_forall (fun d _ => Eq.refl d.line) hd he

/-- A group has no more diagnostics than the batch has on the group's line. -/
theorem length_le_countP_of_mem_lineGroups {group : List Diagnostic}
    (h : group ∈ lineGroups batch) {d : Diagnostic} (hd : d ∈ group) :
    group.length ≤ batch.countP (·.line == d.line) :=
  calc group.length = group.countP (·.line == d.line) :=
        (List.countP_eq_length.mpr fun e he => by
          simp [line_eq_of_mem_lineGroups h he hd]).symm
    _ ≤ (lineGroups batch).flatten.countP (·.line == d.line) :=
        (List.sublist_flatten_of_mem h).countP_le
    _ = batch.countP (·.line == d.line) := (flatten_lineGroups_perm batch).countP_eq _

/-- Whether a diagnostic points at a line that the file has. -/
def pointsInto (lines : List (List Char)) (d : Diagnostic) : Bool :=
  1 ≤ d.line && d.line ≤ lines.length

/-- A plan counts no more repairs than its groups have diagnostics in the file. -/
theorem planGroups_rules_length_le {groups : List (List Diagnostic)} (claimed : Option Nat)
    (hone : ∀ group ∈ groups, ∀ d ∈ group, ∀ e ∈ group, d.line = e.line) :
    ((catalog.planGroups lines claimed groups).flatMap (·.rules)).length
      ≤ groups.flatten.countP (pointsInto lines) := by
  induction groups generalizing claimed with
  | nil => exact Nat.le_refl 0
  | cons group more ih =>
    have ih' := fun claimed => ih claimed fun g hg => hone g (List.mem_cons_of_mem _ hg)
    rw [planGroups, List.flatten_cons, List.countP_append]
    split
    · exact Nat.le_trans (ih' claimed) (Nat.le_add_left _ _)
    · rename_i first hfirst
      obtain ⟨d, current, hd, hzero, -, hcurrent, -, rfl⟩ := planLine?_eq_some hfirst
      have hlength : d.line - 1 < lines.length := (List.getElem?_eq_some_iff.mp hcurrent).1
      -- one diagnostic of the group points into the file, and so they all do
      have hgroup : group.countP (pointsInto lines) = group.length := by
        refine List.countP_eq_length.mpr fun e he => ?_
        have heq := hone group List.mem_cons_self e he d (List.mem_of_head? hd)
        simp only [pointsInto, Bool.and_eq_true, decide_eq_true_eq]
        omega
      rw [List.flatMap_cons, List.length_append, hgroup]
      exact Nat.add_le_add (foldLine_rules_length_le _ _) (ih' _)

/-- A plan goes through the groups of the batch with nothing claimed. -/
theorem planEdits_eq (catalog : Catalog) (lines : List (List Char)) (batch : List Diagnostic) :
    catalog.planEdits lines batch = catalog.planGroups lines none (lineGroups batch) := rfl

/-- Every edit of a plan lies above those planned before it. -/
theorem planEdits_pairwise (catalog : Catalog) (lines : List (List Char))
    (batch : List Diagnostic) :
    (catalog.planEdits lines batch).Pairwise fun edit later => later.lastLine < edit.firstLine :=
  (planGroups_pairwise _ _).2

/-- Every edit of a plan is planned for diagnostics of the batch. -/
theorem mem_planEdits {edit : PlannedEdit} (h : edit ∈ catalog.planEdits lines batch) :
    ∃ group ∈ lineGroups batch, (∀ d ∈ group, d ∈ batch) ∧
      ∃ claimed, catalog.planLine? lines claimed group = some edit := by
  rw [planEdits_eq] at h
  obtain ⟨group, hgroup, claimed, hedit⟩ := mem_planGroups h
  exact ⟨group, hgroup, fun d hd => mem_of_mem_lineGroups hgroup hd, claimed, hedit⟩

/-- Every edit of a plan is well-formed. -/
theorem wellFormed_of_mem_planEdits {edit : PlannedEdit}
    (h : edit ∈ catalog.planEdits lines batch) : edit.WellFormed lines batch := by
  obtain ⟨group, hgroup, hmem, claimed, hedit⟩ := mem_planEdits h
  exact planLine?_wellFormed hmem (fun d hd => length_le_countP_of_mem_lineGroups hgroup hd) hedit

/-- The edit for a line with a single diagnostic is the repair for it, unless the line is
claimed. -/
theorem planLine?_singleton (claimed : Option Nat) (d : Diagnostic) :
    catalog.planLine? lines claimed [d] =
      if claimed.any (· ≤ d.line) then none
      else (catalog.repairAt? lines d).map fun repair =>
        ⟨d.line - repair.linesBefore, d.line, Text.pieces '\n' repair.text, [repair.rule]⟩ := by
  by_cases hclaimed : claimed.any (· ≤ d.line) = true
  · simp [planLine?, hclaimed]
  by_cases hzero : d.line = 0
  · simp [planLine?, repairAt?, hzero]
  rw [if_neg hclaimed]
  cases hcurrent : lines[d.line - 1]? with
  | none => simp [planLine?, repairAt?, hzero, hcurrent]
  | some current =>
    cases hrepair : catalog.repair? d (lineAbove? lines d.line) current lines[d.line]? with
    | none => simp [planLine?, repairAt?, hzero, hclaimed, hcurrent, foldLine, hrepair]
    | some repair =>
      have hfold : catalog.foldLine (lineAbove? lines d.line) lines[d.line]? [d] current
          = ⟨repair.text, repair.linesBefore, [repair.rule]⟩ := by
        rw [foldLine, hrepair]
        simp only [foldLine]
        split
        · rename_i hline
          rw [hline]
        · rfl
      simp [planLine?, repairAt?, hzero, hclaimed, hcurrent, hfold, hrepair]

/-- The plan for a single diagnostic is its repair. -/
theorem planEdits_singleton {d : Diagnostic} {repair : Repair}
    (h : catalog.repairAt? lines d = some repair) :
    catalog.planEdits lines [d] =
      [⟨d.line - repair.linesBefore, d.line, Text.pieces '\n' repair.text, [repair.rule]⟩] := by
  have hsorted : Diagnostic.sortBottomUp [d] = [d] := List.mergeSort_singleton d
  have hgroups : lineGroups [d] = [[d]] := by
    rw [lineGroups, hsorted]
    rfl
  rw [planEdits_eq, hgroups, planGroups, planLine?_singleton, h]
  rfl

/-- A plan goes up the file without overlap, all its edits are well-formed, and they count no more
repairs than the batch has diagnostics in the file. -/
theorem planEdits_wellFormed (catalog : Catalog) (lines : List (List Char))
    (batch : List Diagnostic) :
    ((catalog.planEdits lines batch).Pairwise fun edit later => later.lastLine < edit.firstLine) ∧
      (∀ edit ∈ catalog.planEdits lines batch, edit.WellFormed lines batch) ∧
      ((catalog.planEdits lines batch).flatMap (·.rules)).length
        ≤ batch.countP fun d => 1 ≤ d.line && d.line ≤ lines.length := by
  refine ⟨catalog.planEdits_pairwise lines batch, fun edit => wellFormed_of_mem_planEdits, ?_⟩
  rw [planEdits_eq, ← (flatten_lineGroups_perm batch).countP_eq]
  exact planGroups_rules_length_le none fun group hgroup d hd e he =>
    line_eq_of_mem_lineGroups hgroup hd he

end Catalog

end SourceRepair
