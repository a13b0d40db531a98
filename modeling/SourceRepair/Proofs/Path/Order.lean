import Mathlib
import SourceRepair.Path

/-!
# The order of paths

Components are ordered by their kind, and names by their code points. Sequences of components are
ordered step by step, and paths by their components. So paths are equal in this order exactly when
their components are the same, and the order is transitive.
-/

namespace SourceRepair

namespace Component

/-- The place of the kinds of components in the order. -/
def rank : Component → Nat
  | .root => 0
  | .here => 1
  | .parent => 2
  | .entry _ => 3

/-- The name, if the component is one. -/
def label : Component → String
  | .entry name => name
  | _ => ""

/-- Components are compared by their kind first, and then by their name. -/
theorem compare_eq : (compare : Component → Component → Ordering)
    = compareLex (compareOn rank) (compareOn label) := by
  funext a b
  cases a <;> cases b
  case entry.entry a b =>
    show (compare a b).then .eq = (compare 3 3).then (compare a b)
    rw [Ordering.then_eq]
    rfl
  all_goals rfl

instance : Std.TransOrd Component := by
  rw [Std.TransOrd, compare_eq]
  infer_instance

instance : Std.LawfulEqOrd Component where
  eq_of_compare {a b} h := by
    rw [compare_eq, compareLex_eq_eq] at h
    obtain ⟨hrank, hlabel⟩ := h
    have hrank : a.rank = b.rank := Std.LawfulEqCmp.eq_of_compare hrank
    have hlabel : a.label = b.label := Std.LawfulEqCmp.eq_of_compare hlabel
    cases a <;> cases b <;> simp_all [rank, label]

/-- Sequences of components are compared lexicographically. -/
theorem compareAll_eq (as bs : List Component) : compareAll as bs = compare as bs := by
  fun_induction compareAll as bs with
  | case1 => rfl
  | case2 => rfl
  | case3 => rfl
  | case4 a as b bs ih => rw [List.compare_cons_cons, ih]

end Component

namespace Path

theorem order_eq : Path.order = compareOn components := by
  funext p q
  exact Component.compareAll_eq _ _

instance : Std.TransCmp Path.order := by
  rw [order_eq]
  infer_instance

/-- Paths are equal in their order when they have the same components. -/
theorem order_eq_eq {p q : Path} : p.order q = .eq ↔ p.components = q.components := by
  rw [order_eq]
  exact Std.compare_eq_iff_eq

end Path

end SourceRepair
