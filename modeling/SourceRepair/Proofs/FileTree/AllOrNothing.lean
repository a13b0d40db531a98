import SourceRepair.Proofs.FileTree.Overwriting

/-!
# All or nothing

Replacing a file takes five steps, and a file system may refuse each of them for reasons that do not
show in the tree, such as a full disk or missing rights. `replaceRefused` goes through the steps one
by one. Whatever is refused, the outcome is that of `writeAtomically`, or it is an error and the
tree is what it was (`replaceRefused_cases`): the temporary file never stays.

A replacement that succeeds changes one entry, the one that the path names
(`writeAtomically_allOrNothing`). The path goes on to name it, unless it passes through the entry on
its way: a path that passes through a link to a directory, and names the link in the end, does not
lead anywhere once a file stands there.
-/

namespace SourceRepair.FileTree

variable {tree after : FileTree} {links links' : Nat} {place named led found : Place}
  {steps : List String} {path : Path} {old leaf : Entry} {content : ByteArray} {mode : Mode}

/-! ## Steps that are refused -/

/-- The steps of a replacement. -/
inductive ReplaceStep where
  /-- The mode of what the path leads to is looked up. -/
  | query
  /-- An empty temporary file is created in the directory of the path. -/
  | create
  /-- The content is written to the temporary file. -/
  | fill
  /-- The temporary file gets the mode. -/
  | grant
  /-- The temporary file is renamed to the path. -/
  | rename
  deriving DecidableEq, Repr

/-- The steps that a file system refuses, each with the cause that it gives, and what is left in a
file that it refuses to fill. -/
structure Refusals where
  cause? : ReplaceStep → Option IoCause
  left : ByteArray

/-- A step that is done unless it is refused. -/
def Refusals.attempt {α : Type} (refusals : Refusals) (step : ReplaceStep)
    (outcome : Except IoCause α) : Except IoCause α :=
  match refusals.cause? step with
  | some cause => .error cause
  | none => outcome

/-- The mode of a temporary file at first. -/
def temporaryMode : Mode := 0o600

/-- Replaces the content of the file at a path step by step, on a file system that may refuse some
of the steps. -/
def replaceRefused (refusals : Refusals) (tree : FileTree) (path : Path) (content : String) :
    Except Failure Unit × FileTree :=
  match refusals.attempt .query (tree.modeOf path) with
  | .error cause => (.error (.io path cause), tree)
  | .ok mode =>
    match refusals.attempt .create (tree.locate true path.directory) with
    | .error cause => (.error (.io path cause), tree)
    | .ok (directory, _) =>
      let temporary := tree.freshPlace directory
      let created := tree.put temporary (.file .empty temporaryMode)
      match refusals.attempt .fill
        (.ok (created.put temporary (.file content.toUTF8 temporaryMode))) with
      | .error cause =>
        let broken := created.put temporary (.file refusals.left temporaryMode)
        (.error (.io path cause), broken.remove temporary)
      | .ok filled =>
        match refusals.attempt .grant (.ok (filled.put temporary (.file content.toUTF8 mode))) with
        | .error cause => (.error (.io path cause), filled.remove temporary)
        | .ok granted =>
          match refusals.attempt .rename (granted.rename temporary path) with
          | .error cause => (.error (.io path cause), granted.remove temporary)
          | .ok renamed => (.ok (), renamed)

/-- A step is refused or it is not, whatever its outcome would be. -/
theorem Refusals.attempt_cases (refusals : Refusals) (step : ReplaceStep) :
    (∀ {α : Type} (outcome : Except IoCause α), refusals.attempt step outcome = outcome) ∨
      ∃ cause, ∀ {α : Type} (outcome : Except IoCause α),
        refusals.attempt step outcome = .error cause := by
  unfold Refusals.attempt
  cases refusals.cause? step with
  | none => exact .inl fun _ => rfl
  | some cause => exact .inr ⟨cause, fun _ => rfl⟩

/-- Whatever is refused, a replacement does what it does without refusals, or it fails and leaves
the tree as it is. -/
theorem replaceRefused_cases (refusals : Refusals) (tree : FileTree) (path : Path)
    (content : String) :
    replaceRefused refusals tree path content = tree.writeAtomically path content ∨
      ∃ cause, replaceRefused refusals tree path content = (.error (.io path cause), tree) := by
  unfold replaceRefused writeAtomically
  -- every tree that a step leaves behind is the old one with the temporary file
  simp only [put_put, remove_put_freshPlace]
  rcases refusals.attempt_cases .query with h | ⟨cause, h⟩
  case inr => exact .inr ⟨cause, by rw [h]⟩
  rw [h]
  cases tree.modeOf path with
  | error cause => exact .inl rfl
  | ok mode =>
  rcases refusals.attempt_cases .create with h | ⟨cause, h⟩
  case inr => exact .inr ⟨cause, by simp only [h]⟩
  simp only [h]
  cases tree.locate true path.directory with
  | error cause => exact .inl rfl
  | ok reached =>
  rcases refusals.attempt_cases .fill with h | ⟨cause, h⟩
  case inr => exact .inr ⟨cause, by simp only [h]⟩
  simp only [h]
  rcases refusals.attempt_cases .grant with h | ⟨cause, h⟩
  case inr => exact .inr ⟨cause, by simp only [h, remove_put_freshPlace]⟩
  simp only [h, put_put]
  rcases refusals.attempt_cases .rename with h | ⟨cause, h⟩
  case inr => exact .inr ⟨cause, by simp only [h, remove_put_freshPlace]⟩
  generalize (tree.put _ _).rename _ path = renamed
  refine .inl ?_
  cases renamed with
  | error cause => simp only [h, remove_put_freshPlace]
  | ok renamed => simp only [h]

/-- Without refusals, the steps make up the replacement. -/
theorem replaceRefused_none (refusals : Refusals) (hnone : ∀ step, refusals.cause? step = none)
    (tree : FileTree) (path : Path) (content : String) :
    replaceRefused refusals tree path content = tree.writeAtomically path content := by
  have hattempt : ∀ {α : Type} (step : ReplaceStep) (outcome : Except IoCause α),
      refusals.attempt step outcome = outcome := by
    intro α step outcome
    rw [Refusals.attempt, hnone]
  unfold replaceRefused writeAtomically
  simp only [hattempt, put_put]
  cases tree.modeOf path with
  | error cause => rfl
  | ok mode => cases tree.locate true path.directory <;> rfl

/-! ## Where the path leads afterwards -/

/-- After a file is put where a walk ends, the walk ends there or nowhere. -/
theorem PutAt.walk_unique {what : Option Entry} (hput : tree.PutAt named (.file content mode) after)
    (h : tree.walk false links place steps = .ok (named, some old))
    (h' : after.walk false links place steps = .ok (found, what)) : found = named := by
  rw [walk_eq_ok_some_iff] at h
  rw [walk_eq_ok_iff] at h'
  obtain ⟨h, -⟩ := h
  obtain ⟨h', -⟩ := h'
  have hrests : Rests true (after.entry? named) := by
    rw [hput.entry?_self]
    trivial
  -- a walk that meets the new file ends there
  have hmeets : ∀ {links place step rest}, IsName step → place ++ [step] = named →
      after.Walks false links place (step :: rest) found → found = named := by
    intro links place step rest hname hmet hwalks
    subst hmet
    exact ((walks_leaf_iff hname hrests).mp hwalks).2
  induction h with
  | here => exact walks_nil_iff.mp h'
  | skip hskip _ ih => exact ih hput ((walks_skip_iff hskip).mp h') hrests hmeets
  | up _ ih => exact ih hput (walks_up_iff.mp h') hrests hmeets
  | last hname => exact hmeets hname rfl h'
  | @directory links place named step rest hname hentry _ ih =>
    by_cases hmet : place ++ [step] = named
    · exact hmeets hname hmet h'
    · have hkept := (hput.entry?_of_ne hmet).trans hentry
      exact ih hput ((walks_directory_iff hname hkept).mp h') hrests hmeets
  | @link links place named step target rest hname hentry hon _ _ ih =>
    by_cases hmet : place ++ [step] = named
    · exact hmeets hname hmet h'
    · have hkept := (hput.entry?_of_ne hmet).trans hentry
      obtain ⟨-, left, hleft, h'⟩ := (walks_link_iff hname hkept hon).mp h'
      obtain rfl := Nat.succ.inj hleft
      exact ih hput h' hrests hmeets

/-- A walk that ends at a file or a device ends at the file that is put in its place. -/
theorem PutAt.walk_eq_of_leaf {follow : Bool} (hput : tree.PutAt named (.file content mode) after)
    (hdirectory : old ≠ .directory) (hlink : ∀ target, old ≠ .symlink target)
    (h : tree.walk follow links place steps = .ok (named, some old)) :
    after.walk follow links place steps = .ok (named, some (.file content mode)) := by
  rw [walk_eq_ok_some_iff] at h ⊢
  obtain ⟨h, hold⟩ := h
  have hfile := hput.entry?_self
  have hkept : ∀ {q entry}, tree.entry? q = some entry → entry ≠ old →
      after.entry? q = some entry := by
    intro q entry hq hne
    rw [hput.entry?_of_ne, hq]
    rintro rfl
    exact hne (Option.some.inj (hq.symm.trans hold))
  refine ⟨?_, hfile⟩
  induction h with
  | here links place => exact .here links place
  | skip hskip _ ih => exact .skip hskip (ih hput hold hfile)
  | up _ ih => exact .up (ih hput hold hfile)
  | last hname => exact .last hname (hfile ▸ trivial)
  | directory hname hentry _ ih =>
    exact .directory hname (hkept hentry hdirectory.symm) (ih hput hold hfile)
  | link hname hentry hon htarget _ ih =>
    exact .link hname (hkept hentry (hlink _).symm) hon htarget (ih hput hold hfile)

/-- A path that leads to a file or a device leads to the file that is put in its place. -/
theorem PutAt.locate_eq_of_leaf {follow : Bool} (hput : tree.PutAt named (.file content mode) after)
    (hdirectory : old ≠ .directory) (hlink : ∀ target, old ≠ .symlink target)
    (h : tree.locate follow path = .ok (named, old)) :
    after.locate follow path = .ok (named, .file content mode) := by
  obtain ⟨hfault, hwalk⟩ := locate_eq_ok_iff_walk.mp h
  refine locate_eq_ok_iff_walk.mpr ⟨hfault, ?_⟩
  rw [hput.home]
  exact hput.walk_eq_of_leaf hdirectory hlink hwalk

/-- A path that leads to a file or a device names the file that is put where it named something. -/
theorem PutAt.locate_named (hwell : tree.WellFormed)
    (hput : tree.PutAt named (.file content mode) after)
    (hnamed : tree.locate false path = .ok (named, old))
    (hled : tree.locate true path = .ok (led, leaf)) (hleaf : leaf ≠ .directory) :
    after.locate false path = .ok (named, .file content mode) := by
  by_cases hlink : ∃ target, old = .symlink target
  · obtain ⟨target, rfl⟩ := hlink
    rcases hput.locate_cases_of_link hwell hnamed hled hleaf hnamed with h | ⟨h, -⟩
    · -- no link stands there any more
      have hgone := entry?_of_locate h
      rw [hput.entry?_self] at hgone
      exact absurd (Option.some.inj hgone) (by simp)
    · exact h
  · have hnotlink : ∀ target, old ≠ .symlink target := fun target heq => hlink ⟨target, heq⟩
    have hsame := (locate_true_of_ne_symlink hnotlink hnamed).symm.trans hled
    obtain ⟨-, rfl⟩ := Prod.mk.inj (Except.ok.inj hsame)
    exact hput.locate_eq_of_leaf hleaf hnotlink hnamed

/-! ## The replacement -/

/-- A file is replaced completely or not at all. If the replacement fails, the tree is what it was.
If it succeeds, a file stands where the path names something, with the new content and the mode of
what the path led to, and everything else is what it was. The path then names nothing else than this
file, and it does name the file unless it led to a directory. Nor does it matter which of the steps
the file system refuses. -/
theorem writeAtomically_allOrNothing (tree : FileTree) (path : Path) (content : String) :
    (∀ failure after, tree.writeAtomically path content = (.error failure, after) → after = tree) ∧
    (∀ after, tree.writeAtomically path content = (.ok (), after) →
      ∃ place old mode, tree.locate false path = .ok (place, old) ∧ tree.modeOf path = .ok mode ∧
        after.entry? place = some (.file content.toUTF8 mode) ∧
        (∀ q, q ≠ place → after.entry? q = tree.entry? q) ∧ after.home = tree.home ∧
        (∀ found entry, after.locate false path = .ok (found, entry) →
          found = place ∧ entry = .file content.toUTF8 mode) ∧
        (tree.WellFormed → (∀ found, tree.locate true path ≠ .ok (found, .directory)) →
          after.locate false path = .ok (place, .file content.toUTF8 mode))) ∧
    ∀ refusals, replaceRefused refusals tree path content = tree.writeAtomically path content ∨
      ∃ cause, replaceRefused refusals tree path content = (.error (.io path cause), tree) := by
  refine ⟨fun failure after h => eq_of_writeAtomically_eq_error h, fun after h => ?_,
    fun refusals => replaceRefused_cases refusals tree path content⟩
  obtain ⟨mode, place, old, hmode, hnamed, hput⟩ := writeAtomically_eq_ok h
  have hplace := hput.entry?_self
  refine ⟨place, old, mode, hnamed, hmode, hplace, fun q hq => ?_, hput.home,
    fun found entry hfound => ?_, fun hwell hleads => ?_⟩
  · exact hput.entry?_of_ne hq
  · have hwalk := (locate_eq_ok_iff_walk.mp hfound).2
    rw [hput.home] at hwalk
    obtain rfl := hput.walk_unique (locate_eq_ok_iff_walk.mp hnamed).2 hwalk
    exact ⟨rfl, Option.some.inj ((entry?_of_locate hfound).symm.trans hplace)⟩
  · obtain ⟨led, leaf, hled⟩ := locate_of_modeOf hmode
    exact hput.locate_named hwell hnamed hled fun hdirectory => hleads led (hdirectory ▸ hled)

end SourceRepair.FileTree
