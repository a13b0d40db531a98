import Mathlib

/-!
# Stable sorting

Elements may be left out of a list before it is sorted or after it (`filter_mergeSort`), and
elements that come before all others may be sorted apart from them (`mergeSort_eq_append`). Of the
order of a list, sorting keeps how tied elements stand to each other (`pairwise_mergeSort_of_tied`),
and nothing else (`mergeSort_eq_of_filter_tied_eq`).
-/

namespace SourceRepair

variable {α : Type} {le : α → α → Bool}

/-- Sorting puts an element in front of those that it may stand in front of. -/
theorem mergeSort_cons_eq (htrans : ∀ a b c, le a b = true → le b c = true → le a c = true)
    (htotal : ∀ a b, (le a b || le b a) = true) (a : α) (l : List α) :
    (a :: l).mergeSort le
      = (l.mergeSort le).filter (fun b => !le a b) ++ a :: (l.mergeSort le).filter (le a) := by
  obtain ⟨front, back, hinsert, hsort, hfront⟩ := List.mergeSort_cons htrans htotal a l
  have hsorted := List.pairwise_mergeSort htrans htotal (a :: l)
  rw [hinsert] at hsorted
  have hback : ∀ b ∈ back, le a b = true :=
    (List.pairwise_cons.mp (List.pairwise_append.mp hsorted).2.1).1
  rw [hinsert, hsort, List.filter_append, List.filter_append, List.filter_eq_self.mpr hfront,
    List.filter_eq_self.mpr hback, List.filter_eq_nil_iff.mpr, List.filter_eq_nil_iff.mpr,
    List.append_nil, List.nil_append]
  · intro b hb
    simpa using hfront b hb
  · intro b hb
    simpa using hback b hb

/-- Sorting is stable, so leaving elements out before it or after it is the same. -/
theorem filter_mergeSort (htrans : ∀ a b c, le a b = true → le b c = true → le a c = true)
    (htotal : ∀ a b, (le a b || le b a) = true) (p : α → Bool) (l : List α) :
    (l.mergeSort le).filter p = (l.filter p).mergeSort le := by
  induction l with
  | nil => rw [List.mergeSort_nil, List.filter_nil, List.mergeSort_nil]
  | cons a l ih =>
    by_cases hp : p a = true
    · rw [mergeSort_cons_eq htrans htotal, List.filter_append, List.filter_cons_of_pos hp,
        List.filter_cons_of_pos hp, mergeSort_cons_eq htrans htotal, ← ih, List.filter_filter,
        List.filter_filter, List.filter_filter, List.filter_filter]
      simp only [Bool.and_comm]
    · obtain ⟨front, back, hinsert, hsort, -⟩ := List.mergeSort_cons htrans htotal a l
      rw [hinsert, List.filter_append, List.filter_cons_of_neg hp, ← List.filter_append, ← hsort,
        ih, List.filter_cons_of_neg hp]

/-- A list in which every element of a kind stands in front of all others falls into these two
parts. -/
theorem eq_filter_append_filter {p : α → Bool} {l : List α}
    (h : l.Pairwise fun a b => p b = true → p a = true) :
    l = l.filter p ++ l.filter (!p ·) := by
  induction l with
  | nil => rfl
  | cons a l ih =>
    obtain ⟨hfirst, hrest⟩ := List.pairwise_cons.mp h
    by_cases hp : p a = true
    · rw [List.filter_cons_of_pos hp, List.filter_cons_of_neg (by simpa using hp),
        List.cons_append, ← ih hrest]
    · -- nothing of the kind stands behind an element that is not of it
      have hnone : ∀ b ∈ l, ¬ p b = true := fun b hb hpb => hp (hfirst b hb hpb)
      rw [List.filter_cons_of_neg hp, List.filter_cons_of_pos (by simpa using hp),
        List.filter_eq_nil_iff.mpr hnone, List.nil_append,
        List.filter_eq_self.mpr fun b hb => by simpa using hnone b hb]

/-- Elements that may not stand behind any other are sorted apart from the others. -/
theorem mergeSort_eq_append (htrans : ∀ a b c, le a b = true → le b c = true → le a c = true)
    (htotal : ∀ a b, (le a b || le b a) = true) {p : α → Bool}
    (hfront : ∀ a b, le a b = true → p b = true → p a = true) (l : List α) :
    l.mergeSort le = (l.filter p).mergeSort le ++ (l.filter (!p ·)).mergeSort le := by
  rw [← filter_mergeSort htrans htotal, ← filter_mergeSort htrans htotal]
  exact eq_filter_append_filter ((List.pairwise_mergeSort htrans htotal l).imp (hfront _ _))

/-! ## Tied elements -/

/-- Whether each of two elements may stand in front of the other. -/
def tied (le : α → α → Bool) (a b : α) : Bool :=
  le a b && le b a

theorem tied_self (htotal : ∀ a b, (le a b || le b a) = true) (a : α) : tied le a a = true := by
  have := htotal a a
  simpa [tied] using this

/-- Every element is among those that are tied with it, so it is known from them. -/
theorem mem_of_filter_tied_eq (htotal : ∀ a b, (le a b || le b a) = true) {l l' : List α} {a : α}
    (h : l.filter (tied le a) = l'.filter (tied le a)) (ha : a ∈ l) : a ∈ l' := by
  have hmem : a ∈ l.filter (tied le a) := List.mem_filter.mpr ⟨ha, tied_self htotal a⟩
  rw [h] at hmem
  exact List.mem_of_mem_filter hmem

/-- A sorted list is known from its elements and from how those that are tied follow each other. -/
theorem eq_of_filter_tied_eq (htotal : ∀ a b, (le a b || le b a) = true) {l l' : List α}
    (hl : l.Pairwise fun a b => le a b = true) (hl' : l'.Pairwise fun a b => le a b = true)
    (h : ∀ a, l.filter (tied le a) = l'.filter (tied le a)) : l = l' := by
  induction l generalizing l' with
  | nil =>
    exact (List.eq_nil_iff_forall_not_mem.mpr fun a ha =>
      List.not_mem_nil (mem_of_filter_tied_eq htotal (h a).symm ha)).symm
  | cons a rest ih =>
    obtain ⟨hfirst, hrest⟩ := List.pairwise_cons.mp hl
    have hmem : a ∈ l' := mem_of_filter_tied_eq htotal (h a) List.mem_cons_self
    obtain ⟨a', rest', rfl⟩ := List.exists_cons_of_ne_nil (List.ne_nil_of_mem hmem)
    obtain ⟨hfirst', hrest'⟩ := List.pairwise_cons.mp hl'
    have hmem' : a' ∈ a :: rest := mem_of_filter_tied_eq htotal (h a').symm List.mem_cons_self
    -- the two heads are tied, and so they head the same list of elements tied with them
    have hle : le a a' = true := by
      rcases List.mem_cons.mp hmem' with rfl | hmem'
      · simpa [tied] using tied_self htotal a'
      · exact hfirst a' hmem'
    have hle' : le a' a = true := by
      rcases List.mem_cons.mp hmem with rfl | hmem
      · exact hle
      · exact hfirst' a hmem
    have hhead := h a
    rw [List.filter_cons_of_pos (tied_self htotal a),
      List.filter_cons_of_pos (show tied le a a' = true by simp [tied, hle, hle'])] at hhead
    obtain ⟨rfl, -⟩ := List.cons.inj hhead
    congr 1
    refine ih hrest hrest' fun b => ?_
    have hb := h b
    by_cases hba : tied le b a = true
    · rw [List.filter_cons_of_pos hba, List.filter_cons_of_pos hba] at hb
      exact (List.cons.inj hb).2
    · rwa [List.filter_cons_of_neg hba, List.filter_cons_of_neg hba] at hb

/-- Sorting leaves elements that are tied with each other as they stand. -/
theorem filter_tied_mergeSort (htrans : ∀ a b c, le a b = true → le b c = true → le a c = true)
    (htotal : ∀ a b, (le a b || le b a) = true) (a : α) (l : List α) :
    (l.mergeSort le).filter (tied le a) = l.filter (tied le a) := by
  rw [filter_mergeSort htrans htotal]
  refine List.mergeSort_of_pairwise (List.pairwise_of_forall_mem_list fun b hb c hc => ?_)
  have hb : tied le a b = true := List.of_mem_filter hb
  have hc : tied le a c = true := List.of_mem_filter hc
  rw [tied, Bool.and_eq_true] at hb hc
  exact htrans b a c hb.2 hc.1

/-- How the elements of a list stand to each other is kept by sorting wherever they are tied. -/
theorem pairwise_mergeSort_of_tied
    (htrans : ∀ a b c, le a b = true → le b c = true → le a c = true)
    (htotal : ∀ a b, (le a b || le b a) = true) {rel : α → α → Prop} {l : List α}
    (h : l.Pairwise rel) :
    (l.mergeSort le).Pairwise fun a b => le a b = true ∧ (le b a = true → rel a b) := by
  refine List.pairwise_and_iff.mpr ⟨List.pairwise_mergeSort htrans htotal l,
    List.pairwise_iff_forall_sublist.mpr fun {a b} hab hba => ?_⟩
  have hle : le a b = true :=
    List.pairwise_iff_forall_sublist.mp (List.pairwise_mergeSort htrans htotal l) hab
  have hself : le a a = true := htrans a b a hle hba
  have htied : [a, b].filter (tied le a) = [a, b] := by
    simp [tied, hle, hba, hself]
  have hsub := hab.filter (tied le a)
  rw [htied, filter_tied_mergeSort htrans htotal] at hsub
  exact List.pairwise_iff_forall_sublist.mp h (hsub.trans List.filter_sublist)

/-- Lists in which the tied elements follow each other alike are sorted into one list. -/
theorem mergeSort_eq_of_filter_tied_eq
    (htrans : ∀ a b c, le a b = true → le b c = true → le a c = true)
    (htotal : ∀ a b, (le a b || le b a) = true) {l l' : List α}
    (h : ∀ a, l.filter (tied le a) = l'.filter (tied le a)) :
    l.mergeSort le = l'.mergeSort le := by
  refine eq_of_filter_tied_eq htotal (List.pairwise_mergeSort htrans htotal l)
    (List.pairwise_mergeSort htrans htotal l') fun a => ?_
  rw [filter_mergeSort htrans htotal, filter_mergeSort htrans htotal, h a]

end SourceRepair
