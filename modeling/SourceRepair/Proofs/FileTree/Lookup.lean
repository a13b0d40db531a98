import SourceRepair.Proofs.FileTree.Walks

/-!
# Where paths lead

A lookup depends on the working directory and on the entries it meets. So it is not disturbed by a
tree that has more entries (`Extends`), nor by another content of the files (`SameShape`), because
the content of a file is never looked into on the way. Lookups that follow a link at the end and
those that do not agree on every path that does not end at a link.
-/

namespace SourceRepair

/-- The same entry, or two files. -/
inductive Entry.SameKind : Entry → Entry → Prop where
  | refl (entry : Entry) : SameKind entry entry
  | file {content content' : ByteArray} {mode mode' : Mode} :
      SameKind (.file content mode) (.file content' mode')

namespace FileTree

/-- Two trees that differ at most in what their files hold. -/
structure SameShape (tree other : FileTree) : Prop where
  home : other.home = tree.home
  entries : ∀ place, Option.Rel Entry.SameKind (tree.entry? place) (other.entry? place)

/-- All entries of the first tree stand in the second one as well. -/
structure Extends (tree larger : FileTree) : Prop where
  home : larger.home = tree.home
  entries : ∀ place entry, tree.entry? place = some entry → larger.entry? place = some entry

variable {tree other third larger : FileTree} {follow : Bool} {links : Nat} {place found : Place}
  {steps : List String} {path : Path}

/-! ## Trees of one shape -/

theorem SameShape.refl (tree : FileTree) : SameShape tree tree where
  home := rfl
  entries place := by
    cases tree.entry? place with
    | none => exact .none
    | some entry => exact .some (.refl entry)

theorem SameShape.trans (h : SameShape tree other) (h' : SameShape other third) :
    SameShape tree third where
  home := h'.home.trans h.home
  entries place := by
    have hfirst := h.entries place
    have hsecond := h'.entries place
    generalize tree.entry? place = a at *
    generalize other.entry? place = b at *
    generalize third.entry? place = c at *
    cases hfirst with
    | none => exact hsecond
    | some hfirst =>
      cases hsecond with
      | some hsecond =>
        refine .some ?_
        cases hfirst with
        | refl => exact hsecond
        | file =>
          cases hsecond with
          | refl => exact .file
          | file => exact .file

/-! ## Walks -/

/-- A walk gives what stands at the place it reaches. -/
theorem walk_snd {entry : Option Entry}
    (h : tree.walk follow links place steps = .ok (found, entry)) : entry = tree.entry? found :=
  (walk_eq_ok_iff.mp h).2

/-- What stands at a place of trees of the same shape decides alike how a walk goes on. -/
theorem SameShape.rests_iff (hsame : SameShape tree other) (place : Place) :
    Rests follow (other.entry? place) ↔ Rests follow (tree.entry? place) := by
  have hrel := hsame.entries place
  generalize tree.entry? place = what at hrel ⊢
  generalize other.entry? place = what' at hrel ⊢
  cases hrel with
  | none => rfl
  | some hkind => cases hkind <;> rfl

theorem SameShape.isNone_eq (hsame : SameShape tree other) (place : Place) :
    (other.entry? place).isNone = (tree.entry? place).isNone := by
  have hrel := hsame.entries place
  generalize tree.entry? place = what at hrel ⊢
  generalize other.entry? place = what' at hrel ⊢
  cases hrel <;> rfl

/-- What is no file stands in both of them. -/
theorem SameShape.entry?_eq (hsame : SameShape tree other) {entry : Entry}
    (hfile : ∀ content mode, entry ≠ .file content mode)
    (h : tree.entry? place = some entry) : other.entry? place = some entry := by
  have hrel := hsame.entries place
  rw [h] at hrel
  generalize other.entry? place = what' at hrel ⊢
  cases hrel with
  | some hkind =>
    cases hkind with
    | refl => rfl
    | file => exact absurd rfl (hfile _ _)

/-- Trees of the same shape are walked alike. -/
theorem SameShape.walk_eq (hsame : SameShape tree other) :
    other.walk follow links place steps
      = (tree.walk follow links place steps).map fun found =>
          (found.1, other.entry? found.1) := by
  induction links, place, steps using tree.walk_induct follow with
  | nil links place =>
    rw [walk, walk]
    rfl
  | skip links place step rest hskip ih => rw [walk_skip hskip, walk_skip hskip, ih]
  | up links place rest ih => rw [walk_up, walk_up, ih]
  | long links place step rest hskip hup hlong =>
    rw [walk, walk, if_neg hskip, if_neg hup, if_pos hlong, if_neg hskip, if_neg hup, if_pos hlong]
    rfl
  | last links place step hname hrests =>
    rw [walk_last hname hrests, walk_last hname ((hsame.rests_iff _).mpr hrests)]
    rfl
  | blocked links place step rest hname hrests hrest =>
    rw [walk_blocked hname hrests hrest, walk_blocked hname ((hsame.rests_iff _).mpr hrests) hrest,
      hsame.isNone_eq]
    rfl
  | directory links place step rest hname hentry ih =>
    have hother := hsame.entry?_eq (by simp) hentry
    rw [walk_directory hname hentry, walk_directory hname hother, ih]
  | link links place step rest target hname hentry hon ih =>
    -- both walks go on with the target of the same link
    have hother := hsame.entry?_eq (by simp) hentry
    rw [walk_link hname hentry hon, walk_link hname hother hon]
    cases links with
    | zero => rfl
    | succ left =>
      by_cases htarget : target = ""
      · simp only [if_pos htarget]
        rfl
      · simp only [if_neg htarget]
        exact ih left rfl

/-- A walk that ends at an entry has met no gap, so that more entries do not matter. -/
theorem Extends.walk_eq (hext : Extends tree larger) {entry : Entry}
    (h : tree.walk follow links place steps = .ok (found, some entry)) :
    larger.walk follow links place steps = .ok (found, some entry) := by
  rw [walk_eq_ok_some_iff] at h ⊢
  obtain ⟨h, hfound⟩ := h
  refine ⟨?_, hext.entries found entry hfound⟩
  induction h with
  | here links place => exact .here links place
  | skip hskip _ ih => exact .skip hskip (ih hfound)
  | up _ ih => exact .up (ih hfound)
  | last hname hrests =>
    refine .last hname ?_
    rwa [hext.entries _ _ hfound, ← hfound]
  | directory hname hentry _ ih =>
    exact .directory hname (hext.entries _ _ hentry) (ih hfound)
  | link hname hentry hon htarget _ ih =>
    exact .link hname (hext.entries _ _ hentry) hon htarget (ih hfound)

/-- Whether a link at the end is followed does not matter where no link is at the end. -/
theorem walk_true (h : ∀ found target,
      tree.walk false links place steps ≠ .ok (found, some (.symlink target))) :
    tree.walk true links place steps = tree.walk false links place steps := by
  induction links, place, steps using tree.walk_induct false with
  | nil links place => rw [walk, walk]
  | skip links place step rest hskip ih =>
    rw [walk_skip hskip] at h
    rw [walk_skip hskip, walk_skip hskip, ih h]
  | up links place rest ih =>
    rw [walk_up] at h
    rw [walk_up, walk_up, ih h]
  | long links place step rest hskip hup hlong =>
    rw [walk, walk, if_neg hskip, if_neg hup, if_pos hlong, if_neg hskip, if_neg hup, if_pos hlong]
  | last links place step hname hrests =>
    rw [walk_last hname hrests] at h
    have hrests' : Rests true (tree.entry? (place ++ [step])) :=
      hrests.of_ne_symlink fun target hlink => h _ target (by rw [hlink])
    rw [walk_last hname hrests, walk_last hname hrests']
  | blocked links place step rest hname hrests hrest =>
    rw [walk_blocked hname hrests hrest, walk_blocked hname hrests hrest]
  | directory links place step rest hname hentry ih =>
    rw [walk_directory hname hentry] at h
    rw [walk_directory hname hentry, walk_directory hname hentry, ih h]
  | link links place step rest target hname hentry hon ih =>
    -- a link that is not the last step is followed in any case
    rw [walk_link hname hentry hon] at h
    rw [walk_link hname hentry hon, walk_link hname hentry (.inl rfl)]
    cases links with
    | zero => rfl
    | succ left =>
      by_cases htarget : target = ""
      · simp only [if_pos htarget]
      · simp only [if_neg htarget] at h ⊢
        exact ih left rfl h

/-- One more name after a walk to a directory leads to what has this name there. Links on the way to
the directory are followed, and one of that name is not. -/
theorem walk_concat {parent : Place} {last : String} (hlast : IsName last)
    (h : tree.walk true links place steps = .ok (parent, some .directory)) :
    tree.walk false links place (steps ++ [last])
      = .ok (parent ++ [last], tree.entry? (parent ++ [last])) := by
  rw [walk_eq_ok_some_iff] at h
  rw [walk_eq_ok_iff]
  obtain ⟨h, hparent⟩ := h
  refine ⟨?_, rfl⟩
  induction h with
  | here links place => exact walks_name hlast
  | skip hskip _ ih => exact .skip hskip (ih hparent)
  | up _ ih => exact .up (ih hparent)
  | last _ hrests => exact absurd hparent hrests.ne_directory
  | directory hname hentry _ ih => exact .directory hname hentry (ih hparent)
  | link hname hentry _ htarget _ ih =>
    have hmore := ih hparent
    rw [List.append_assoc] at hmore
    exact .link hname hentry (.inr (by simp)) htarget hmore

/-! ## Paths -/

/-- A path leads to what stands at its place. -/
theorem resolve_snd {entry : Option Entry} (h : tree.resolve follow path = .ok (found, entry)) :
    entry = tree.entry? found := by
  unfold resolve at h
  split at h
  · exact absurd h (by simp)
  · exact walk_snd h

theorem locate_eq_ok_iff {entry : Entry} :
    tree.locate follow path = .ok (found, entry) ↔
      tree.resolve follow path = .ok (found, some entry) := by
  unfold locate
  split <;> simp_all

/-- A lookup is a walk from the directory that the path starts at. -/
theorem locate_eq_ok_iff_walk {entry : Entry} :
    tree.locate follow path = .ok (found, entry) ↔ pathFault? path = none ∧
      tree.walk follow linkLimit (if path.isAbsolute then [] else tree.home)
        (FileTree.steps path.spelling) = .ok (found, some entry) := by
  rw [locate_eq_ok_iff, resolve]
  cases pathFault? path <;> simp

/-- A relative path is looked up by a walk along its steps. -/
theorem locate_of_walk (steps : List String) {entry : Entry}
    (hpath : pathFault? path = none ∧ path.isAbsolute = false ∧
      FileTree.steps path.spelling = steps)
    (hwalk : tree.walk follow linkLimit tree.home steps = .ok (found, some entry)) :
    tree.locate follow path = .ok (found, entry) := by
  obtain ⟨hfault, hrelative, rfl⟩ := hpath
  rw [locate_eq_ok_iff_walk, hrelative]
  exact ⟨hfault, hwalk⟩

/-- What a path leads to stands at its place. -/
theorem entry?_of_locate {entry : Entry} (h : tree.locate follow path = .ok (found, entry)) :
    tree.entry? found = some entry :=
  (resolve_snd (locate_eq_ok_iff.mp h)).symm

/-- Paths lead to the same places in trees of the same shape. -/
theorem SameShape.resolve_eq (hsame : SameShape tree other) (follow : Bool) (path : Path) :
    other.resolve follow path
      = (tree.resolve follow path).map fun found => (found.1, other.entry? found.1) := by
  unfold resolve
  split
  · rfl
  · rw [hsame.home, hsame.walk_eq]

/-- What a path leads to in a tree of the same shape has its place in both. -/
theorem SameShape.exists_locate (hsame : SameShape tree other) {entry : Entry}
    (h : other.locate follow path = .ok (found, entry)) :
    ∃ old, tree.locate follow path = .ok (found, old) := by
  rw [locate_eq_ok_iff, hsame.resolve_eq] at h
  cases hreached : tree.resolve follow path with
  | error cause =>
    rw [hreached] at h
    exact absurd h (by simp [Except.map])
  | ok reached =>
    obtain ⟨place, what⟩ := reached
    obtain rfl := resolve_snd hreached
    rw [hreached] at h
    obtain ⟨rfl, hstands⟩ := Prod.mk.inj (Except.ok.inj h)
    have hrel := hsame.entries place
    rw [hstands] at hrel
    cases hold : tree.entry? place with
    | none =>
      rw [hold] at hrel
      cases hrel
    | some old =>
      rw [hold] at hreached
      exact ⟨old, locate_eq_ok_iff.mpr hreached⟩

/-- In a tree of the same shape, a path leads to what it led to, if that is the same. -/
theorem SameShape.locate_eq (hsame : SameShape tree other)
    (h : ∀ place entry, tree.locate follow path = .ok (place, entry) →
      other.entry? place = tree.entry? place) :
    other.locate follow path = tree.locate follow path := by
  unfold locate
  rw [hsame.resolve_eq]
  cases hfound : tree.resolve follow path with
  | error cause => rfl
  | ok reached =>
    obtain ⟨found, what⟩ := reached
    obtain rfl := resolve_snd hfound
    have hentry : other.entry? found = tree.entry? found := by
      cases hstands : tree.entry? found with
      | none =>
        have hrel := hsame.entries found
        rw [hstands] at hrel
        generalize other.entry? found = what at hrel
        cases hrel
        rfl
      | some entry =>
        rw [hstands, ← locate_eq_ok_iff] at hfound
        rw [h found entry hfound, hstands]
    simp only [Except.map, hentry]

/-- What a path leads to stays where it is when entries are added. -/
theorem Extends.locate_eq (hext : Extends tree larger) {entry : Entry}
    (h : tree.locate follow path = .ok (found, entry)) :
    larger.locate follow path = .ok (found, entry) := by
  rw [locate_eq_ok_iff] at h ⊢
  unfold resolve at h ⊢
  split at h
  · exact absurd h (by simp)
  · rw [hext.home]
    exact hext.walk_eq h

/-- A path that does not name a link leads to what it names. -/
theorem locate_true (h : ∀ found target, tree.locate false path ≠ .ok (found, .symlink target)) :
    tree.locate true path = tree.locate false path := by
  have hresolve : tree.resolve true path = tree.resolve false path := by
    unfold resolve
    split
    · rfl
    · rename_i hfault
      refine walk_true fun found target hlink => h found target (locate_eq_ok_iff.mpr ?_)
      unfold resolve
      rw [hfault]
      exact hlink
  rw [locate, hresolve, locate]

/-- A path that names something else than a link leads to it. -/
theorem locate_true_of_ne_symlink {entry : Entry} (hlink : ∀ target, entry ≠ .symlink target)
    (h : tree.locate false path = .ok (found, entry)) :
    tree.locate true path = .ok (found, entry) := by
  rw [locate_true fun place target h' => ?_, h]
  exact hlink target (Prod.mk.inj (Except.ok.inj (h.symm.trans h'))).2

/-- A path that leads to something names something. -/
theorem exists_locate_false {entry : Entry} (h : tree.locate true path = .ok (found, entry)) :
    ∃ named old, tree.locate false path = .ok (named, old) := by
  by_cases hlink : ∃ named target, tree.locate false path = .ok (named, .symlink target)
  · obtain ⟨named, target, hlink⟩ := hlink
    exact ⟨named, .symlink target, hlink⟩
  · rw [locate_true fun named target hnamed => hlink ⟨named, target, hnamed⟩] at h
    exact ⟨found, entry, h⟩

end FileTree

end SourceRepair
