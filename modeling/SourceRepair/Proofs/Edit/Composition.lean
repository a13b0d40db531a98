import SourceRepair.Proofs.Edit.Planning
import SourceRepair.Proofs.Sorting

/-!
# Plans for the parts of a file

A plan goes up the file, so it plans everything below a line before anything above it. What happened
below reaches the lines above through one number only, the first line of the last edit: diagnostics
from there on are passed over. So the plan for a batch is the plan for its lower part followed by
the plan for the rest of its upper part (`planEdits_eq_append`).
-/

namespace SourceRepair

namespace Diagnostic

theorem bottomUpLE_trans (a b c : Diagnostic) (hab : bottomUpLE a b = true)
    (hbc : bottomUpLE b c = true) : bottomUpLE a c = true := by
  simp only [bottomUpLE, Bool.or_eq_true, decide_eq_true_eq, Bool.and_eq_true, beq_iff_eq]
    at hab hbc ⊢
  omega

theorem bottomUpLE_total (a b : Diagnostic) : (bottomUpLE a b || bottomUpLE b a) = true := by
  simp only [bottomUpLE, Bool.or_eq_true, decide_eq_true_eq, Bool.and_eq_true, beq_iff_eq]
  omega

/-- From the bottom up, the lines do not increase. -/
theorem line_le_of_bottomUpLE {a b : Diagnostic} (h : bottomUpLE a b = true) : b.line ≤ a.line := by
  simp only [bottomUpLE, Bool.or_eq_true, decide_eq_true_eq, Bool.and_eq_true, beq_iff_eq] at h
  omega

/-- From the bottom up, the diagnostics from some line on come first. -/
theorem sortBottomUp_eq_append (batch : List Diagnostic) (limit : Nat) :
    sortBottomUp batch = sortBottomUp (batch.filter (limit ≤ ·.line))
      ++ sortBottomUp (batch.filter (·.line < limit)) := by
  have hrest : (fun d : Diagnostic => !decide (limit ≤ d.line))
      = fun d => decide (d.line < limit) := by
    funext d
    rw [← decide_not, decide_eq_decide, Nat.not_le]
  have h := mergeSort_eq_append (p := fun d : Diagnostic => decide (limit ≤ d.line))
    bottomUpLE_trans bottomUpLE_total (fun a b hle hb => by
      have hline := line_le_of_bottomUpLE hle
      have hb : limit ≤ b.line := of_decide_eq_true hb
      exact decide_eq_true (Nat.le_trans hb hline)) batch
  rwa [hrest] at h

end Diagnostic

namespace Catalog

variable {catalog : Catalog} {lines : List (List Char)} {batch : List Diagnostic} {limit : Nat}

/-! ## Groups -/

/-- The groups of a batch are those from some line on, and then those above it. -/
theorem lineGroups_eq_append (batch : List Diagnostic) (limit : Nat) :
    lineGroups batch = lineGroups (batch.filter (limit ≤ ·.line))
      ++ lineGroups (batch.filter (·.line < limit)) := by
  unfold lineGroups
  rw [Diagnostic.sortBottomUp_eq_append batch limit]
  refine List.splitBy_append fun d hd e he => ?_
  -- the last diagnostic from the limit on and the first one above it are on different lines
  have hd := List.mem_mergeSort.mp (List.mem_of_mem_getLast? hd)
  have he := List.mem_mergeSort.mp (List.mem_of_mem_head? he)
  have hd : limit ≤ d.line := by simpa using (List.mem_filter.mp hd).2
  have he : e.line < limit := by simpa using (List.mem_filter.mp he).2
  simp only [beq_eq_false_iff_ne]
  omega

/-! ## What is claimed -/

/-- The line from which on everything is claimed after some edits. -/
def claimedAfter (claimed : Option Nat) (edits : List PlannedEdit) : Option Nat :=
  match edits.getLast? with
  | none => claimed
  | some edit => some edit.firstLine

/-- Edits are planned for some groups first, and then for others with what is claimed by then. -/
theorem planGroups_append (claimed : Option Nat) (groups more : List (List Diagnostic)) :
    catalog.planGroups lines claimed (groups ++ more)
      = catalog.planGroups lines claimed groups ++ catalog.planGroups lines
          (claimedAfter claimed (catalog.planGroups lines claimed groups)) more := by
  induction groups generalizing claimed with
  | nil => rfl
  | cons group groups ih =>
    rw [List.cons_append, planGroups, planGroups]
    split
    · exact ih claimed
    · rename_i edit _
      rw [ih, List.cons_append]
      congr 2
      rw [claimedAfter, claimedAfter, List.getLast?_cons]
      cases (catalog.planGroups lines (some edit.firstLine) groups).getLast? <;> rfl

/-- No edit is planned for a group that is claimed. -/
theorem planLine?_claimed {group : List Diagnostic} (h : ∀ d ∈ group, limit ≤ d.line) :
    catalog.planLine? lines (some limit) group = none := by
  rw [Option.eq_none_iff_forall_ne_some]
  intro edit hedit
  obtain ⟨d, -, hd, -, hclaimed, -⟩ := planLine?_eq_some hedit
  exact Nat.not_le_of_gt (hclaimed limit rfl) (h d (List.mem_of_head? hd))

theorem planGroups_claimed {groups : List (List Diagnostic)}
    (h : ∀ group ∈ groups, ∀ d ∈ group, limit ≤ d.line) :
    catalog.planGroups lines (some limit) groups = [] := by
  induction groups with
  | nil => rfl
  | cons group more ih =>
    obtain ⟨hgroup, hmore⟩ := List.forall_mem_cons.mp h
    rw [planGroups, planLine?_claimed hgroup]
    exact ih hmore

/-- What is claimed below a group does not matter for it. -/
theorem planLine?_unclaimed {group : List Diagnostic} (h : ∀ d ∈ group, d.line < limit) :
    catalog.planLine? lines (some limit) group = catalog.planLine? lines none group := by
  cases group with
  | nil => rfl
  | cons d more =>
    have hd : ¬ limit ≤ d.line := Nat.not_le_of_gt (h d List.mem_cons_self)
    simp [planLine?, hd]

theorem planGroups_unclaimed {groups : List (List Diagnostic)}
    (h : ∀ group ∈ groups, ∀ d ∈ group, d.line < limit) :
    catalog.planGroups lines (some limit) groups = catalog.planGroups lines none groups := by
  induction groups with
  | nil => rfl
  | cons group more ih =>
    obtain ⟨hgroup, hmore⟩ := List.forall_mem_cons.mp h
    rw [planGroups, planGroups, planLine?_unclaimed hgroup, ih hmore]

/-- With everything from some line on claimed, the diagnostics above that line are planned for. -/
theorem planGroups_lineGroups_claimed (batch : List Diagnostic) (limit : Nat) :
    catalog.planGroups lines (some limit) (lineGroups batch)
      = catalog.planEdits lines (batch.filter (·.line < limit)) := by
  have hclaimed : ∀ group ∈ lineGroups (batch.filter (limit ≤ ·.line)), ∀ d ∈ group,
      limit ≤ d.line := fun group hgroup d hd => by
    simpa using (List.mem_filter.mp (mem_of_mem_lineGroups hgroup hd)).2
  have hunclaimed : ∀ group ∈ lineGroups (batch.filter (·.line < limit)), ∀ d ∈ group,
      d.line < limit := fun group hgroup d hd => by
    simpa using (List.mem_filter.mp (mem_of_mem_lineGroups hgroup hd)).2
  rw [lineGroups_eq_append batch limit, planGroups_append, planGroups_claimed hclaimed,
    List.nil_append]
  exact planGroups_unclaimed hunclaimed

/-! ## Plans -/

/-- The diagnostics that are left for a plan after some edits: those above the last edit, and all if
there is none. -/
def leftAfter (edits : List PlannedEdit) (batch : List Diagnostic) : List Diagnostic :=
  match edits.getLast? with
  | none => batch
  | some edit => batch.filter (·.line < edit.firstLine)

/-- The plan for a batch is the plan for the diagnostics below a line, followed by the plan for what
that leaves of the others. -/
theorem planEdits_eq_append (catalog : Catalog) (lines : List (List Char))
    (batch : List Diagnostic) (line : Nat) :
    let below := catalog.planEdits lines (batch.filter (line < ·.line))
    catalog.planEdits lines batch
      = below ++ catalog.planEdits lines (leftAfter below (batch.filter (·.line ≤ line))) := by
  intro below
  have hbelow : batch.filter (line + 1 ≤ ·.line) = batch.filter (line < ·.line) := rfl
  have habove : batch.filter (·.line < line + 1) = batch.filter (·.line ≤ line) := by
    simp only [Nat.lt_succ_iff]
  rw [planEdits_eq, lineGroups_eq_append batch (line + 1), hbelow, habove, planGroups_append]
  show below ++ catalog.planGroups lines (claimedAfter none below) _ = _
  congr 1
  rw [claimedAfter, leftAfter]
  cases below.getLast? with
  | none => rfl
  | some edit => exact planGroups_lineGroups_claimed _ _

end Catalog

end SourceRepair
