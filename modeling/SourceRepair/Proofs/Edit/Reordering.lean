import SourceRepair.Edit.Content
import SourceRepair.Proofs.Edit.Composition
import SourceRepair.Rule.Literal

/-!
# Batches in another order

A compiler may report the diagnostics of a file in any order. A plan sorts them by position first,
and the sort is stable, so the plan depends on their order only for diagnostics at one and the same
position (`fixContent_eq_of_reordering`). Those have to keep their order: each repair starts from
the line the one before it left.
-/

namespace SourceRepair

namespace Diagnostic

/-- Whether a diagnostic points at the given line and column. -/
def isAt (line column : Nat) (d : Diagnostic) : Bool :=
  d.line == line && d.column == column

/-- The second batch holds the diagnostics of the first one in another order, in which those at one
position follow each other as before. -/
structure Reordering (batch other : List Diagnostic) : Prop where
  perm : batch.Perm other
  filter_position_eq : ∀ line column,
    batch.filter (isAt line column) = other.filter (isAt line column)

variable {batch other : List Diagnostic}

/-- Diagnostics on different lines may change places. -/
theorem Reordering.swap {d e : Diagnostic} (h : d.line ≠ e.line) (more : List Diagnostic) :
    Reordering (d :: e :: more) (e :: d :: more) := by
  refine ⟨List.Perm.swap e d more, fun line column => ?_⟩
  by_cases hd : isAt line column d = true
  · -- then the other one is somewhere else
    have he : ¬ isAt line column e = true := fun he => by
      simp only [isAt, Bool.and_eq_true, beq_iff_eq] at hd he
      exact h (hd.1.trans he.1.symm)
    rw [List.filter_cons_of_pos hd, List.filter_cons_of_neg he, List.filter_cons_of_neg he,
      List.filter_cons_of_pos hd]
  · rw [List.filter_cons_of_neg hd, List.filter_cons, List.filter_cons,
      List.filter_cons_of_neg hd]

/-- Diagnostics are tied in the order from the bottom up if they are at one position. -/
theorem tied_bottomUpLE (a : Diagnostic) :
    tied bottomUpLE a = isAt a.line a.column := by
  funext d
  rw [Bool.eq_iff_iff]
  simp only [tied, isAt, bottomUpLE, Bool.or_eq_true, decide_eq_true_eq, Bool.and_eq_true,
    beq_iff_eq]
  omega

/-- Batches that differ by a reordering are the same from the bottom up. -/
theorem Reordering.sortBottomUp_eq (h : Reordering batch other) :
    sortBottomUp batch = sortBottomUp other := by
  refine mergeSort_eq_of_filter_tied_eq bottomUpLE_trans bottomUpLE_total fun a => ?_
  rw [tied_bottomUpLE]
  exact h.filter_position_eq a.line a.column

end Diagnostic

namespace Catalog

/-- A file is repaired alike whatever the order in which its diagnostics were reported. -/
theorem fixContent_eq_of_reordering (catalog : Catalog) (file : Path) (content : List Char)
    {batch other : List Diagnostic} (h : Diagnostic.Reordering batch other) :
    catalog.fixContent file content batch = catalog.fixContent file content other := by
  rw [fixContent, fixContent, planEdits, planEdits, h.sortBottomUp_eq]

/-- The diagnostic for the first line is reported in front of those for the second line, or between
them. -/
theorem fixContent_eq_of_reordering_between :
    let catalog := ofPlainRules [{ name := "break", text := "b", fixer := some .newline }]
    let first : Diagnostic := ⟨⟨"a.ts"⟩, 1, 1, "TS1005", "';' expected."⟩
    let second : Diagnostic := ⟨⟨"a.ts"⟩, 2, 1, "TS1128", ""⟩
    let third : Diagnostic := ⟨⟨"a.ts"⟩, 2, 1, "TS1005", "',' expected."⟩
    Diagnostic.Reordering [first, second, third] [second, first, third] ∧
      catalog.fixContent ⟨"a.ts"⟩ "b\nbb".toList [first, second, third]
        = catalog.fixContent ⟨"a.ts"⟩ "b\nbb".toList [second, first, third] := by
  intro catalog first second third
  have h : Diagnostic.Reordering [first, second, third] [second, first, third] :=
    Diagnostic.Reordering.swap (by decide) [third]
  exact ⟨h, fixContent_eq_of_reordering catalog ⟨"a.ts"⟩ "b\nbb".toList h⟩

end Catalog

end SourceRepair
