import SourceRepair.Proofs.FileTree.Lookup

/-!
# Replacing files

A file that is replaced in one step changes the tree at one place, the one that its path names: the
new content stands there, with the access rights of what the path led to, and the temporary file is
gone. Everything else stays, and paths lead where they led before.
-/

namespace SourceRepair.FileTree

variable {tree after : FileTree} {place origin : Place} {entry : Entry} {path : Path}

/-- The second tree is the first one but for the entry at one place. -/
structure PutAt (tree : FileTree) (place : Place) (entry : Entry) (after : FileTree) : Prop where
  home : after.home = tree.home
  entries : ∀ q, after.entry? q = if q = place then some entry else tree.entry? q

theorem PutAt.entry?_self (hput : tree.PutAt place entry after) :
    after.entry? place = some entry := by
  rw [hput.entries, if_pos rfl]

/-- Elsewhere the second tree is the first one. -/
theorem PutAt.entry?_of_ne {q : Place} (hput : tree.PutAt place entry after) (hne : q ≠ place) :
    after.entry? q = tree.entry? q := by
  rw [hput.entries, if_neg hne]

/-! ## Renaming -/

/-- The steps of a path without a slash at its end. -/
theorem stepsAndSlash_eq (h : (stepsAndSlash path).2 = false) :
    (stepsAndSlash path).1 = steps path.spelling := by
  unfold stepsAndSlash at h ⊢
  split at h
  · exact absurd h (by simp)
  · simp

/-- The directory that holds the last step of a path is the one that the other steps lead to. -/
theorem parentOf_eq_ok {parent : Place} {last : String}
    (h : tree.parentOf path = .ok (parent, last)) :
    pathFault? path = none ∧ ∃ before, (stepsAndSlash path).1 = before ++ [last] ∧
      tree.walk true linkLimit (if path.isAbsolute then [] else tree.home) before
        = .ok (parent, some .directory) := by
  unfold parentOf at h
  split at h
  · exact absurd h (by simp)
  · exact absurd h (by simp)
  · rename_i last' before hfault hsteps
    split at h
    · exact absurd h (by simp)
    · exact absurd h (by simp)
    · rename_i hwalk
      obtain ⟨rfl, rfl⟩ : _ = parent ∧ _ = last := by simpa using h
      exact ⟨hfault, before.reverse, by simpa using congrArg List.reverse hsteps, hwalk⟩
    · exact absurd h (by simp)

/-- A file that is renamed goes to the place that the path names, where no directory may stand. -/
theorem rename_eq_ok (h : tree.rename origin path = .ok after) :
    ∃ moved place, tree.entry? origin = some moved ∧ place ≠ [] ∧
      tree.resolve false path = .ok (place, tree.entry? place) ∧
      after = (tree.remove origin).put place moved := by
  unfold rename at h
  split at h
  · exact absurd h (by simp)
  · exact absurd h (by simp)
  · rename_i moved parent last horigin hparent
    obtain ⟨hfault, before, hsteps, hwalk⟩ := parentOf_eq_ok hparent
    split at h
    · exact absurd h (by simp)
    rename_i hlast
    split at h
    · exact absurd h (by simp)
    rename_i hshort
    split at h
    · exact absurd h (by simp)
    rename_i hslash
    obtain ⟨hnothing, hhere, hup⟩ : last ≠ "" ∧ last ≠ "." ∧ last ≠ ".." := by
      simpa only [not_or] using hlast
    have hname : IsName last := ⟨hnothing, hhere, hup, hshort⟩
    have hresolve : tree.resolve false path
        = .ok (parent ++ [last], tree.entry? (parent ++ [last])) := by
      rw [stepsAndSlash_eq (by simpa using hslash)] at hsteps
      unfold resolve
      rw [hfault, hsteps]
      exact walk_concat hname hwalk
    split at h
    · exact absurd h (by simp)
    · obtain rfl := Except.ok.inj h
      exact ⟨moved, parent ++ [last], horigin, by simp, hresolve, rfl⟩

/-! ## Replacing a file in one step -/

/-- What a path leads to has a mode, and only that. -/
theorem locate_of_modeOf {mode : Mode} (h : tree.modeOf path = .ok mode) :
    ∃ found entry, tree.locate true path = .ok (found, entry) := by
  unfold modeOf at h
  split at h
  · exact absurd h (by simp)
  all_goals exact ⟨_, _, by assumption⟩

/-- A temporary file adds to a tree and takes nothing away. -/
theorem extends_put_freshPlace (tree : FileTree) (directory : Place) (entry : Entry) :
    Extends tree (tree.put (tree.freshPlace directory) entry) where
  home := rfl
  entries place old hold := by
    rw [entry?_put (freshPlace_ne_nil tree directory), if_neg, hold]
    rintro rfl
    rw [entry?_freshPlace] at hold
    exact absurd hold (by simp)

/-- Replacing a file in one step puts the new content, with the mode that was found, at the place
that the path names, and does nothing else. -/
theorem writeAtomically_eq_ok {content : String}
    (h : tree.writeAtomically path content = (.ok (), after)) :
    ∃ mode place old, tree.modeOf path = .ok mode ∧ tree.locate false path = .ok (place, old) ∧
      tree.PutAt place (.file content.toUTF8 mode) after := by
  unfold writeAtomically at h
  split at h
  · exact absurd h (by simp)
  · exact absurd h (by simp)
  rename_i mode directory _ hmode _
  let temporary := tree.freshPlace directory
  let filled := tree.put temporary (.file content.toUTF8 mode)
  simp only at h
  split at h
  · exact absurd h (by simp)
  rename_i renamed hrename
  have hrename : filled.rename temporary path = .ok renamed := hrename
  obtain rfl : renamed = after := by simpa using h
  have hfilled : ∀ q, filled.entry? q
      = if q = temporary then some (.file content.toUTF8 mode) else tree.entry? q :=
    entry?_put (freshPlace_ne_nil tree directory) _
  -- the path names the same place as before the temporary file was there
  obtain ⟨_, _, hlocate⟩ := locate_of_modeOf hmode
  obtain ⟨place, old, hnamed⟩ := exists_locate_false hlocate
  have hnamed' : filled.locate false path = .ok (place, old) :=
    (extends_put_freshPlace tree directory _).locate_eq hnamed
  obtain ⟨moved, place', horigin, hplace, hresolve, rfl⟩ := rename_eq_ok hrename
  obtain ⟨rfl, -⟩ : place' = place ∧ filled.entry? place' = some old := by
    have := hresolve.symm.trans (locate_eq_ok_iff.mp hnamed')
    simpa using this
  obtain rfl : moved = .file content.toUTF8 mode := by
    rw [hfilled, if_pos rfl] at horigin
    exact (Option.some.inj horigin).symm
  refine ⟨mode, place', old, hmode, hnamed, rfl, fun q => ?_⟩
  rw [entry?_put hplace, entry?_remove (freshPlace_ne_nil tree directory), hfilled]
  by_cases hq : q = place'
  · rw [if_pos hq, if_pos hq]
  · rw [if_neg hq, if_neg hq]
    split
    · rename_i hfresh
      rw [hfresh, entry?_freshPlace]
    · rfl

/-- A file is replaced if the path leads to something, its directory is there, and the temporary
file can be renamed to the path. -/
theorem writeAtomically_of_rename {content : String} {mode : Mode} {directory : Place}
    (hmode : tree.modeOf path = .ok mode)
    (habove : tree.locate true path.directory = .ok (directory, entry))
    (hrename : (tree.put (tree.freshPlace directory) (.file content.toUTF8 mode)).rename
      (tree.freshPlace directory) path = .ok after) :
    tree.writeAtomically path content = (.ok (), after) := by
  rw [writeAtomically, hmode, habove]
  simp only [hrename]

/-- A path that names a file and no link has this file replaced, and its mode kept. -/
theorem putAt_of_writeAtomically {bytes : ByteArray} {mode : Mode} {content : String}
    (hlink : ∀ found target, tree.locate false path ≠ .ok (found, .symlink target))
    (hlocate : tree.locate true path = .ok (place, .file bytes mode))
    (h : tree.writeAtomically path content = (.ok (), after)) :
    tree.PutAt place (.file content.toUTF8 mode) after := by
  obtain ⟨mode', place', old, hmode, hnamed, hput⟩ := writeAtomically_eq_ok h
  rw [← locate_true hlink, hlocate] at hnamed
  obtain ⟨rfl, -⟩ : place = place' ∧ _ = old := by simpa using hnamed
  obtain rfl : mode = mode' := by
    unfold modeOf at hmode
    rw [hlocate] at hmode
    exact Except.ok.inj hmode
  exact hput

/-- A temporary file that is taken away again has changed nothing. -/
theorem remove_put_freshPlace (tree : FileTree) (directory : Place) (entry : Entry) :
    (tree.put (tree.freshPlace directory) entry).remove (tree.freshPlace directory) = tree := by
  have hfresh : tree.entries.any (·.1 == tree.freshPlace directory) = false := by
    rw [List.any_eq_false]
    intro old hold
    simpa using freshPlace_ne_of_mem directory hold
  have hkept : tree.entries.filter (·.1 != tree.freshPlace directory) = tree.entries := by
    rw [List.filter_eq_self]
    intro old hold
    simpa using freshPlace_ne_of_mem directory hold
  rw [put, if_neg (by simp [hfresh]), remove, List.filter_append, hkept,
    List.filter_cons_of_neg (by simp), List.filter_nil, List.append_nil]

/-- A write that fails leaves the tree as it is. -/
theorem eq_of_writeAtomically_eq_error {content : String} {failure : Failure}
    (h : tree.writeAtomically path content = (.error failure, after)) : after = tree := by
  unfold writeAtomically at h
  split at h
  · exact (Prod.mk.inj h).2.symm
  · exact (Prod.mk.inj h).2.symm
  · simp only at h
    split at h
    · rw [← (Prod.mk.inj h).2]
      exact remove_put_freshPlace tree _ _
    · exact absurd (Prod.mk.inj h).1 (by simp)

/-! ## What another path sees of it -/

/-- Another content in a file leaves the shape of the tree as it is. -/
theorem PutAt.sameShape {content content' : ByteArray} {mode mode' : Mode}
    (hput : tree.PutAt place (.file content' mode') after)
    (hold : tree.entry? place = some (.file content mode)) : SameShape tree after where
  home := hput.home
  entries q := by
    rw [hput.entries]
    split
    · rename_i hq
      rw [hq, hold]
      exact .some .file
    · cases tree.entry? q with
      | none => exact .none
      | some entry => exact .some (.refl entry)

/-- A path that does not lead to the place of the change leads to what it led to before. -/
theorem PutAt.locate_eq {content content' : ByteArray} {mode mode' : Mode} {follow : Bool}
    (hput : tree.PutAt place (.file content' mode') after)
    (hold : tree.entry? place = some (.file content mode))
    (hother : ∀ entry, tree.locate follow path ≠ .ok (place, entry)) :
    after.locate follow path = tree.locate follow path := by
  refine (hput.sameShape hold).locate_eq fun found entry hfound => ?_
  refine hput.entry?_of_ne ?_
  rintro rfl
  exact hother entry hfound

end SourceRepair.FileTree
