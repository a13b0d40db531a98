import SourceRepair.Proofs.FileTree.Lookup

/-!
# Trees that hang together

In a tree as a file system has it, whatever holds an entry is a directory, and so is the working
directory; names are made of anything but slashes, and the names that stand for no step of their own
are not used. A walk in such a tree goes from directory to directory, so it ends for good at a file
(`WellFormed.walk_append_of_leaf`), behind which there is nothing
(`WellFormed.eq_nil_of_walk_append`), and if it follows links, it never ends at one
(`WellFormed.ne_symlink_of_walk`).
-/

namespace SourceRepair.FileTree

/-- The tree of a file system. -/
structure WellFormed (tree : FileTree) : Prop where
  home : tree.entry? tree.home = some .directory
  parent : ∀ place entry, tree.entry? place = some entry →
    tree.entry? place.dropLast = some .directory
  name : ∀ place entry, tree.entry? place = some entry → ∀ name ∈ place,
    name ≠ "" ∧ name ≠ "." ∧ name ≠ ".." ∧ '/' ∉ name.toList

variable {tree : FileTree} {links links' : Nat} {place found : Place} {steps : List String}
  {path : Path} {entry : Entry}

/-- The root is a directory. -/
theorem entry?_nil (tree : FileTree) : tree.entry? [] = some .directory := rfl

/-- What a link leads to is looked up from a directory again. -/
theorem behindLink_directory (hplace : tree.entry? place = some .directory) (target : String) :
    tree.entry? (behindLink place target) = some .directory := by
  unfold behindLink
  split
  · exact entry?_nil tree
  · exact hplace

namespace WellFormed

/-- Whether a tree is that of a file system can be told from its entries one by one. -/
theorem of_entries (home : tree.entry? tree.home = some .directory)
    (h : ∀ stood ∈ tree.entries, tree.entry? stood.1.dropLast = some .directory ∧
      ∀ name ∈ stood.1, name ≠ "" ∧ name ≠ "." ∧ name ≠ ".." ∧ '/' ∉ name.toList) :
    tree.WellFormed := by
  have hmem : ∀ place entry, tree.entry? place = some entry →
      place = [] ∨ (place, entry) ∈ tree.entries := by
    intro place entry hentry
    unfold entry? at hentry
    split at hentry
    · exact .inl ‹_›
    · obtain ⟨front, back, hentries, -⟩ := List.lookup_eq_some_iff.mp hentry
      exact .inr (hentries ▸ List.mem_append_right front List.mem_cons_self)
  exact {
    home := home
    parent := fun place entry hentry => by
      rcases hmem place entry hentry with rfl | hplace
      · exact entry?_nil tree
      · exact (h _ hplace).1
    name := fun place entry hentry => by
      rcases hmem place entry hentry with rfl | hplace
      · exact fun name hname => absurd hname List.not_mem_nil
      · exact (h _ hplace).2 }

/-- The directory above a place where something stands. -/
theorem parent_directory (hwell : tree.WellFormed) (hplace : tree.entry? place = some .directory) :
    tree.entry? place.dropLast = some .directory :=
  hwell.parent place .directory hplace

/-- A walk that follows links does not end at one. -/
theorem ne_symlink_of_walk (hwell : tree.WellFormed) (hplace : tree.entry? place = some .directory)
    (h : tree.walk true links place steps = .ok (found, some entry)) (target : String) :
    entry ≠ .symlink target := by
  rw [walk_eq_ok_some_iff] at h
  obtain ⟨h, hfound⟩ := h
  rintro rfl
  induction h with
  | here =>
    rw [hplace] at hfound
    exact absurd hfound (by simp)
  | skip _ _ ih => exact ih hplace hfound
  | up _ ih => exact ih (hwell.parent_directory hplace) hfound
  | last _ hrests => exact hrests.ne_symlink target hfound
  | directory _ hentry _ ih => exact ih hentry hfound
  | link _ _ _ _ _ ih => exact ih (behindLink_directory hplace _) hfound

/-- A walk that has ended at a file cannot go on, whatever number of links it may follow. -/
theorem walk_append_of_leaf (hwell : tree.WellFormed)
    (hplace : tree.entry? place = some .directory) (hleaf : entry ≠ .directory)
    (h : tree.walk true links place steps = .ok (found, some entry)) {rest : List String}
    {reached : Place × Option Entry}
    (h' : tree.walk true links' place (steps ++ rest) = .ok reached) :
    reached = (found, some entry) := by
  obtain ⟨found', what⟩ := reached
  rw [walk_eq_ok_some_iff] at h
  rw [walk_eq_ok_iff] at h'
  obtain ⟨h, hfound⟩ := h
  obtain ⟨h', rfl⟩ := h'
  suffices found' = found by rw [this, hfound]
  induction h generalizing links' with
  | here =>
    rw [hplace] at hfound
    exact absurd (Option.some.inj hfound).symm hleaf
  | skip hskip _ ih => exact ih hplace hfound ((walks_skip_iff hskip).mp h')
  | up _ ih => exact ih (hwell.parent_directory hplace) hfound (walks_up_iff.mp h')
  | last hname hrests => exact ((walks_leaf_iff hname hrests).mp h').2
  | directory hname hentry _ ih => exact ih hentry hfound ((walks_directory_iff hname hentry).mp h')
  | link hname hentry _ _ _ ih =>
    -- both walks follow the link, and so they go on alike
    rw [List.cons_append] at h'
    obtain ⟨-, left, -, h'⟩ := (walks_link_iff hname hentry (.inl rfl)).mp h'
    rw [← List.append_assoc] at h'
    exact ih (behindLink_directory hplace _) hfound h'

/-- Nothing lies behind a file or a device, whatever number of links may be followed. -/
theorem eq_nil_of_walk_append (hwell : tree.WellFormed) {follow : Bool}
    (hplace : tree.entry? place = some .directory) (hleaf : entry ≠ .directory)
    (h : tree.walk true links place steps = .ok (found, some entry)) {rest : List String}
    {reached : Place × Option Entry}
    (h' : tree.walk follow links' place (steps ++ rest) = .ok reached) : rest = [] := by
  obtain ⟨found', what⟩ := reached
  rw [walk_eq_ok_some_iff] at h
  rw [walk_eq_ok_iff] at h'
  obtain ⟨h, hfound⟩ := h
  obtain ⟨h', -⟩ := h'
  induction h generalizing links' with
  | here =>
    rw [hplace] at hfound
    exact absurd (Option.some.inj hfound).symm hleaf
  | skip hskip _ ih => exact ih hplace hfound ((walks_skip_iff hskip).mp h')
  | up _ ih => exact ih (hwell.parent_directory hplace) hfound (walks_up_iff.mp h')
  | last hname hrests => exact ((walks_leaf_iff hname hrests).mp h').1
  | directory hname hentry _ ih => exact ih hentry hfound ((walks_directory_iff hname hentry).mp h')
  | @link _ _ _ _ _ rest' hname hentry _ _ _ ih =>
    -- with more steps behind it, the link is followed by both walks
    by_contra hrest
    have hmore : rest' ++ rest ≠ [] := by simp [hrest]
    rw [List.cons_append] at h'
    obtain ⟨-, left, -, h'⟩ := (walks_link_iff hname hentry (.inr hmore)).mp h'
    rw [← List.append_assoc] at h'
    exact hrest (ih (behindLink_directory hplace _) hfound h')

end WellFormed

end SourceRepair.FileTree
