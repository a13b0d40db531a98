import Mathlib.Data.List.Basic

/-!
# Where a list parts

In a list in which the elements with a property all stand in front of those without it, the place
where the list parts can be looked for by halves: one look at an element decides for all elements on
one side of it. `partitionPoint` looks for it in this way, and comes to the place that parts the
list (`partsAt_partitionPoint`), which is the number of elements with the property
(`partitionPoint_eq_countP`).
-/

namespace SourceRepair

variable {α : Type} {p : α → Bool} {l : List α}

/-- The first index from `low` on, and `high` at most, at which the property does not hold, looked
for by halves. -/
def partitionBetween (p : α → Bool) (l : List α) (low high : Nat) : Nat :=
  if low < high then
    if l[(low + high) / 2]?.any p then partitionBetween p l ((low + high) / 2 + 1) high
    else partitionBetween p l low ((low + high) / 2)
  else low
termination_by high - low

/-- The index at which the elements with a property end, looked for by halves. -/
def partitionPoint (p : α → Bool) (l : List α) : Nat :=
  partitionBetween p l 0 l.length

/-- The first `count` elements have the property, and no other has. -/
structure PartsAt (p : α → Bool) (l : List α) (count : Nat) : Prop where
  le_length : count ≤ l.length
  front : ∀ a ∈ l.take count, p a = true
  back : ∀ a ∈ l.drop count, p a = false

/-- One element decides for those in front of it if it has the property, and for those behind it if
it has not. -/
theorem forall_mem_of_getElem (hl : l.Pairwise fun a b => p b = true → p a = true) {index : Nat}
    (h : index < l.length) :
    (p l[index] = true → ∀ a ∈ l.take (index + 1), p a = true) ∧
      (p l[index] = false → ∀ a ∈ l.drop index, p a = false) := by
  have hdrop := List.drop_eq_getElem_cons h
  rw [← List.take_append_drop index l, hdrop] at hl
  obtain ⟨-, hback, hacross⟩ := List.pairwise_append.mp hl
  rw [List.take_succ_eq_append_getElem h, hdrop]
  constructor
  · intro hp a ha
    rcases List.mem_append.mp ha with ha | ha
    · exact hacross a ha _ List.mem_cons_self hp
    · rwa [List.mem_singleton.mp ha]
  · intro hp
    refine List.forall_mem_cons.mpr ⟨hp, fun a ha => ?_⟩
    rw [← Bool.not_eq_true] at hp ⊢
    exact mt ((List.pairwise_cons.mp hback).1 a ha) hp

/-- The search comes to where the list parts: the elements below `low` have the property, those from
`high` on have not, and each look leaves one of the two true for more of them. -/
theorem partsAt_partitionBetween (hl : l.Pairwise fun a b => p b = true → p a = true)
    {low high : Nat} (hhigh : high ≤ l.length) (hle : low ≤ high)
    (hfront : ∀ a ∈ l.take low, p a = true) (hback : ∀ a ∈ l.drop high, p a = false) :
    PartsAt p l (partitionBetween p l low high) := by
  fun_induction partitionBetween p l low high with
  | case1 low high hlt hmiddle ih =>
    have hindex : (low + high) / 2 < l.length := by omega
    rw [List.getElem?_eq_getElem hindex, Option.any_some] at hmiddle
    exact ih hhigh (by omega) ((forall_mem_of_getElem hl hindex).1 hmiddle) hback
  | case2 low high hlt hmiddle ih =>
    have hindex : (low + high) / 2 < l.length := by omega
    rw [List.getElem?_eq_getElem hindex, Option.any_some, Bool.not_eq_true] at hmiddle
    exact ih (by omega) (by omega) hfront ((forall_mem_of_getElem hl hindex).2 hmiddle)
  | case3 low high hlt =>
    obtain rfl : low = high := by omega
    exact ⟨hhigh, hfront, hback⟩

theorem partsAt_partitionPoint (hl : l.Pairwise fun a b => p b = true → p a = true) :
    PartsAt p l (partitionPoint p l) :=
  partsAt_partitionBetween hl (Nat.le_refl _) (Nat.zero_le _) (by simp) (by simp)

/-- As many elements have the property as stand in front of the place where the list parts. -/
theorem PartsAt.countP_eq {count : Nat} (h : PartsAt p l count) : l.countP p = count := by
  rw [← List.take_append_drop count l, List.countP_append, List.countP_eq_length.mpr h.front,
    List.countP_eq_zero.mpr fun a ha => by simp [h.back a ha], List.length_take, Nat.add_zero,
    Nat.min_eq_left h.le_length]

theorem partitionPoint_eq_countP (hl : l.Pairwise fun a b => p b = true → p a = true) :
    partitionPoint p l = l.countP p :=
  (partsAt_partitionPoint hl).countP_eq.symm

end SourceRepair
