import Mathlib
import SourceRepair.FileTree.Write

/-!
# What stands where

What `put` and `remove` do to the entries of a tree, place by place, and why a fresh place is free:
there is one more name to choose from than there are entries.
-/

namespace SourceRepair.FileTree

variable {tree : FileTree} {place : Place}

theorem entry?_of_ne_nil (hplace : place ≠ []) : tree.entry? place = tree.entries.lookup place :=
  if_neg hplace

/-! ## Putting and removing -/

/-- Where every entry at `place` is replaced, only `place` is looked up differently. -/
theorem lookup_replace {entries : List (Place × Entry)} (entry : Entry) (q : Place) :
    (entries.map fun old => if old.1 == place then (place, entry) else old).lookup q
      = if q = place then (entries.lookup place).map fun _ => entry else entries.lookup q := by
  induction entries with
  | nil => simp
  | cons head more ih =>
    obtain ⟨key, old⟩ := head
    rw [List.map_cons]
    by_cases hkey : key = place
    · subst hkey
      simp only [beq_self_eq_true, if_true, List.lookup_cons]
      by_cases hq : q = key
      · simp [hq]
      · rw [ih, if_neg hq, if_neg hq, beq_false_of_ne hq]
    · rw [if_neg (by simpa using hkey), List.lookup_cons, List.lookup_cons, List.lookup_cons, ih]
      by_cases hq : q = place
      · subst hq
        simp [beq_false_of_ne (Ne.symm hkey)]
      · rw [if_neg hq, if_neg hq]

/-- A tree with an entry put at a place. -/
theorem entry?_put (hplace : place ≠ []) (entry : Entry) (q : Place) :
    entry? (tree.put place entry) q = if q = place then some entry else tree.entry? q := by
  by_cases hq : q = []
  · subst hq
    rw [if_neg (Ne.symm hplace)]
    rfl
  rw [entry?_of_ne_nil hq, entry?_of_ne_nil hq, put]
  split
  · -- an old entry stands at the place
    rename_i hany
    obtain ⟨⟨key, old⟩, hmem, hkey⟩ := List.any_eq_true.mp hany
    obtain rfl : key = place := by simpa using hkey
    have hsome : (tree.entries.lookup key).isSome := by
      rw [List.lookup_isSome_iff]
      exact ⟨_, hmem, by simp⟩
    obtain ⟨found, hfound⟩ := Option.isSome_iff_exists.mp hsome
    rw [lookup_replace, hfound]
    rfl
  · -- the place was empty
    rename_i hany
    have hnone : tree.entries.lookup place = none := by
      rw [List.lookup_eq_none_iff]
      intro old hmem
      rw [bne_iff_ne]
      rintro rfl
      exact hany (List.any_eq_true.mpr ⟨old, hmem, beq_self_eq_true _⟩)
    rw [List.lookup_append]
    by_cases hqp : q = place
    · subst hqp
      simp [hnone]
    · rw [if_neg hqp, List.lookup_cons, beq_false_of_ne hqp]
      simp

/-- What is put twice at a place is what is put last. -/
theorem put_put (tree : FileTree) (place : Place) (entry entry' : Entry) :
    (tree.put place entry).put place entry' = tree.put place entry' := by
  by_cases hany : tree.entries.any (·.1 == place) = true
  · have hagain : (tree.entries.map fun old => if old.1 == place then (place, entry) else old).any
        (·.1 == place) = true := by
      obtain ⟨old, hold, hplace⟩ := List.any_eq_true.mp hany
      refine List.any_eq_true.mpr
        ⟨(place, entry), List.mem_map.mpr ⟨old, hold, ?_⟩, beq_self_eq_true _⟩
      rw [if_pos hplace]
    unfold put
    simp only [if_pos hany, if_pos hagain, List.map_map]
    congr 1
    refine List.map_congr_left fun old _ => ?_
    by_cases hplace : (old.1 == place) = true
    · rw [Function.comp_apply, if_pos hplace, if_pos hplace, if_pos (beq_self_eq_true _)]
    · rw [Function.comp_apply, if_neg hplace, if_neg hplace]
  · have hagain : (tree.entries ++ [(place, entry)]).any (·.1 == place) = true := by simp
    have hkept : (tree.entries.map fun old => if old.1 == place then (place, entry') else old)
        = tree.entries := by
      refine (List.map_congr_left fun old hold => if_neg fun hplace => ?_).trans (List.map_id _)
      exact hany (List.any_eq_true.mpr ⟨old, hold, hplace⟩)
    unfold put
    simp only [if_neg hany, if_pos hagain, List.map_append, hkept, List.map_cons, List.map_nil,
      beq_self_eq_true, if_true]

/-- A tree with the entries at a place removed. -/
theorem entry?_remove (hplace : place ≠ []) (q : Place) :
    entry? (tree.remove place) q = if q = place then none else tree.entry? q := by
  by_cases hq : q = []
  · subst hq
    rw [if_neg (Ne.symm hplace)]
    rfl
  rw [entry?_of_ne_nil hq, entry?_of_ne_nil hq, remove]
  show (tree.entries.filter (·.1 != place)).lookup q = _
  induction tree.entries with
  | nil => simp
  | cons head more ih =>
    obtain ⟨key, old⟩ := head
    by_cases hkey : key = place
    · subst hkey
      rw [List.filter_cons_of_neg (by simp), ih, List.lookup_cons]
      by_cases hqk : q = key
      · rw [if_pos hqk, if_pos hqk]
      · rw [if_neg hqk, if_neg hqk, beq_false_of_ne hqk]
    · rw [List.filter_cons_of_pos (by simpa using hkey), List.lookup_cons, List.lookup_cons, ih]
      by_cases hqk : q = key
      · subst hqk
        simp [hkey]
      · rw [beq_false_of_ne hqk]

/-! ## Fresh places -/

/-- The names of temporary files are different for different numbers. -/
theorem temporaryName_injective : Function.Injective fun n : Nat => ".tmp" ++ toString n := by
  intro m n h
  have hrepr : m.repr.toList = n.repr.toList :=
    congrArg String.toList ((String.append_right_inj ".tmp").mp h)
  have hvalue := congrArg (Nat.ofDigitChars 10 · 0) hrepr
  simpa only [Nat.toList_repr, Nat.ofDigitChars_ten_toDigits] using hvalue

/-- No entry stands at a fresh place. -/
theorem freshPlace_ne_of_mem (directory : Place) {entry : Place × Entry}
    (h : entry ∈ tree.entries) : entry.1 ≠ tree.freshPlace directory := by
  let names := (List.range (tree.entries.length + 1)).map fun n : Nat => ".tmp" ++ toString n
  let free : String → Bool := fun name =>
    tree.entries.all fun entry => entry.1 != directory ++ [name]
  have hfree : ∃ name ∈ names, free name = true := by
    by_contra hnone
    -- otherwise every one of the names is taken, by an entry of its own
    have htaken : names.map (directory ++ [·]) ⊆ tree.entries.map (·.1) := by
      intro place hplace
      obtain ⟨name, hname, rfl⟩ := List.mem_map.mp hplace
      have hname : ¬ free name = true := fun hfree => hnone ⟨name, hname, hfree⟩
      obtain ⟨entry, hentry, heq⟩ := List.all_eq_false.mp (Bool.not_eq_true _ ▸ hname)
      exact List.mem_map.mpr ⟨entry, hentry, by simpa using heq⟩
    have hnodup : (names.map (directory ++ [·])).Nodup := by
      refine List.Nodup.map ?_ (List.Nodup.map temporaryName_injective List.nodup_range)
      intro a b hab
      simpa using hab
    have hlength := (List.subperm_of_subset hnodup htaken).length_le
    rw [List.length_map, List.length_map, List.length_map, List.length_range] at hlength
    omega
  obtain ⟨name, hfound⟩ := Option.isSome_iff_exists.mp (List.find?_isSome.mpr hfree)
  have hfresh : tree.freshPlace directory = directory ++ [name] := by
    show directory ++ [(names.find? free).getD ".tmp"] = _
    rw [hfound, Option.getD_some]
  have hall : free name = true := List.find?_some hfound
  rw [hfresh]
  simpa using List.all_eq_true.mp hall entry h

theorem freshPlace_ne_nil (tree : FileTree) (directory : Place) :
    tree.freshPlace directory ≠ [] := by
  simp [freshPlace]

/-- Nothing stands at a fresh place. -/
theorem entry?_freshPlace (tree : FileTree) (directory : Place) :
    tree.entry? (tree.freshPlace directory) = none := by
  rw [entry?_of_ne_nil (freshPlace_ne_nil tree directory), List.lookup_eq_none_iff]
  intro entry hentry
  simpa using Ne.symm (freshPlace_ne_of_mem directory hentry)

end SourceRepair.FileTree
