import SourceRepair.Proofs.FileTree.Entries

/-!
# How walks go

A walk takes its steps one by one. A step that stands for none is passed over, one up leads to the
directory above, and a name leads into a directory, through a link or, as the last step, to what has
the name. `Walks` says how a walk gets to a place, with a rule for each of these, and `walk`
succeeds exactly by these rules (`walk_eq_ok_iff`); whatever holds of successful walks is an
induction on the rules. How a given step is taken is decided by the entry of its name alone
(`walks_leaf_iff`, `walks_directory_iff`, `walks_link_iff`).

Where two walks go alike also if they fail, the induction is on the steps (`walk_induct`), with
an equation of `walk` for each kind of step.
-/

namespace SourceRepair.FileTree

variable {tree : FileTree} {follow : Bool} {links : Nat} {place found : Place} {step : String}
  {rest : List String} {target : String}

/-- The names that lead from a directory to an entry of it. -/
structure IsName (step : String) : Prop where
  ne_nothing : step ≠ ""
  ne_here : step ≠ "."
  ne_up : step ≠ ".."
  short : ¬ nameLimit < step.utf8ByteSize

/-- Where the target of a link is looked up that stands in a directory. -/
def behindLink (directory : Place) (target : String) : Place :=
  if (FileTree.steps target).head? = some "" then [] else directory

/-- A walk whose last name leads here ends here: it has not come to a directory, which it would
enter, nor to a link that it is to follow. -/
def Rests (follow : Bool) : Option Entry → Prop
  | some .directory => False
  | some (.symlink _) => follow = false
  | _ => True

theorem Rests.ne_directory {what : Option Entry} (h : Rests follow what) :
    what ≠ some .directory := by
  rintro rfl
  exact h

theorem Rests.ne_symlink {what : Option Entry} (h : Rests true what) (target : String) :
    what ≠ some (.symlink target) := by
  rintro rfl
  exact Bool.false_ne_true (Eq.symm (h : true = false))

/-- A walk that follows no link rests at everything but directories. -/
theorem rests_false_iff {what : Option Entry} : Rests false what ↔ what ≠ some .directory := by
  refine ⟨Rests.ne_directory, fun h => ?_⟩
  match what with
  | none => trivial
  | some (.file _ _) => trivial
  | some (.device _) => trivial
  | some (.symlink _) => rfl
  | some .directory => exact absurd rfl h

/-- A walk that rests where links are followed rests there in any case. -/
theorem Rests.of_true {what : Option Entry} (h : Rests true what) : Rests follow what := by
  match what, h with
  | none, _ => trivial
  | some (.file _ _), _ => trivial
  | some (.device _), _ => trivial

/-- Where it is no link that a walk rests at, it would rest there if it followed links. -/
theorem Rests.of_ne_symlink {what : Option Entry} (h : Rests false what)
    (hlink : ∀ target, what ≠ some (.symlink target)) : Rests true what := by
  match what, h with
  | none, _ => trivial
  | some (.file _ _), _ => trivial
  | some (.device _), _ => trivial
  | some (.symlink target), _ => exact absurd rfl (hlink target)

/-! ## Steps -/

theorem walk_skip (hskip : step = "" ∨ step = ".") :
    tree.walk follow links place (step :: rest) = tree.walk follow links place rest := by
  rw [walk, if_pos hskip]

theorem walk_up :
    tree.walk follow links place (".." :: rest) = tree.walk follow links place.dropLast rest := by
  rw [walk, if_neg (by decide), if_pos rfl]

/-- A name is a step of its own, and not too long. -/
theorem IsName.not_skip (hname : IsName step) : ¬(step = "" ∨ step = ".") :=
  not_or.mpr ⟨hname.ne_nothing, hname.ne_here⟩

theorem walk_directory (hname : IsName step)
    (hentry : tree.entry? (place ++ [step]) = some .directory) :
    tree.walk follow links place (step :: rest)
      = tree.walk follow links (place ++ [step]) rest := by
  rw [walk, if_neg hname.not_skip, if_neg hname.ne_up, if_neg hname.short, hentry]

/-- A link is gone through if it is not the last step, and otherwise if it is to be followed. -/
theorem walk_link (hname : IsName step)
    (hentry : tree.entry? (place ++ [step]) = some (.symlink target))
    (hon : follow = true ∨ rest ≠ []) :
    tree.walk follow links place (step :: rest) = match links with
      | 0 => .error .tooManyLinks
      | left + 1 =>
        if target = "" then .error .noEntry
        else tree.walk follow left (behindLink place target) (FileTree.steps target ++ rest) := by
  have hnot : ¬ (rest.isEmpty && !follow) = true := by
    rcases hon with rfl | hrest <;> simp [*]
  rw [walk, if_neg hname.not_skip, if_neg hname.ne_up, if_neg hname.short, hentry]
  simp only [if_neg hnot]
  rfl

theorem walk_last (hname : IsName step) (hrests : Rests follow (tree.entry? (place ++ [step]))) :
    tree.walk follow links place [step] = .ok (place ++ [step], tree.entry? (place ++ [step])) := by
  rw [walk, if_neg hname.not_skip, if_neg hname.ne_up, if_neg hname.short]
  generalize tree.entry? (place ++ [step]) = what at hrests ⊢
  cases what with
  | none => rfl
  | some entry =>
    cases entry with
    | file _ _ => rfl
    | device _ => rfl
    | directory => exact absurd rfl hrests.ne_directory
    | symlink _ =>
      obtain rfl : follow = false := hrests
      rfl

/-- Behind what is neither a directory nor a link there is nothing to go to. -/
theorem walk_blocked (hname : IsName step) (hrests : Rests true (tree.entry? (place ++ [step])))
    (hrest : rest ≠ []) :
    tree.walk follow links place (step :: rest) = .error
      (if (tree.entry? (place ++ [step])).isNone then .noEntry else .notDirectory) := by
  have hempty : ¬ rest.isEmpty = true := by simpa using hrest
  rw [walk, if_neg hname.not_skip, if_neg hname.ne_up, if_neg hname.short]
  generalize tree.entry? (place ++ [step]) = what at hrests ⊢
  cases what with
  | none => exact if_neg hempty
  | some entry =>
    cases entry with
    | file _ _ => exact if_neg hempty
    | device _ => exact if_neg hempty
    | directory => exact absurd rfl hrests.ne_directory
    | symlink target => exact absurd rfl (hrests.ne_symlink target)

/-- Induction over the steps of a walk. A link is replaced by the steps of its target, and for it
the walk may follow one link less. -/
theorem walk_induct (tree : FileTree) (follow : Bool) {motive : Nat → Place → List String → Prop}
    (nil : ∀ links place, motive links place [])
    (skip : ∀ links place step rest, step = "" ∨ step = "." → motive links place rest →
      motive links place (step :: rest))
    (up : ∀ links place rest, motive links place.dropLast rest → motive links place (".." :: rest))
    (long : ∀ links place step rest, ¬(step = "" ∨ step = ".") → step ≠ ".." →
      nameLimit < step.utf8ByteSize → motive links place (step :: rest))
    (last : ∀ links place step, IsName step → Rests follow (tree.entry? (place ++ [step])) →
      motive links place [step])
    (blocked : ∀ links place step rest, IsName step → Rests true (tree.entry? (place ++ [step])) →
      rest ≠ [] → motive links place (step :: rest))
    (directory : ∀ links place step rest, IsName step →
      tree.entry? (place ++ [step]) = some .directory → motive links (place ++ [step]) rest →
      motive links place (step :: rest))
    (link : ∀ links place step rest target, IsName step →
      tree.entry? (place ++ [step]) = some (.symlink target) → follow = true ∨ rest ≠ [] →
      (∀ left, links = left + 1 →
        motive left (behindLink place target) (FileTree.steps target ++ rest)) →
      motive links place (step :: rest))
    (links : Nat) (place : Place) (steps : List String) : motive links place steps := by
  induction links using Nat.strongRecOn generalizing place steps with
  | _ links ihLinks =>
    induction steps generalizing place with
    | nil => exact nil links place
    | cons step rest ih =>
      by_cases hskip : step = "" ∨ step = "."
      · exact skip links place step rest hskip (ih place)
      by_cases hup : step = ".."
      · subst hup
        exact up links place rest (ih place.dropLast)
      by_cases hlong : nameLimit < step.utf8ByteSize
      · exact long links place step rest hskip hup hlong
      have hname : IsName step := ⟨(not_or.mp hskip).1, (not_or.mp hskip).2, hup, hlong⟩
      have hleaf : Rests true (tree.entry? (place ++ [step])) →
          motive links place (step :: rest) := by
        intro hrests
        by_cases hrest : rest = []
        · subst hrest
          exact last links place step hname hrests.of_true
        · exact blocked links place step rest hname hrests hrest
      match hentry : tree.entry? (place ++ [step]) with
      | none => exact hleaf (hentry ▸ trivial)
      | some (.file _ _) => exact hleaf (hentry ▸ trivial)
      | some (.device _) => exact hleaf (hentry ▸ trivial)
      | some .directory => exact directory links place step rest hname hentry (ih _)
      | some (.symlink target) =>
        by_cases hon : follow = true ∨ rest ≠ []
        · refine link links place step rest target hname hentry hon fun left hleft => ?_
          exact ihLinks left (by omega) _ _
        · obtain ⟨hfollow, hrest⟩ := not_or.mp hon
          obtain rfl := not_not.mp hrest
          refine last links place step hname ?_
          rw [hentry]
          exact Bool.eq_false_iff.mpr hfollow

/-! ## Walks that succeed -/

/-- A walk along some steps, which may follow so many links, gets from one place to another. -/
inductive Walks (tree : FileTree) (follow : Bool) : Nat → Place → List String → Place → Prop
  | here (links : Nat) (place : Place) : Walks tree follow links place [] place
  | skip {links : Nat} {place found : Place} {step : String} {rest : List String}
      (hskip : step = "" ∨ step = ".") (more : Walks tree follow links place rest found) :
      Walks tree follow links place (step :: rest) found
  | up {links : Nat} {place found : Place} {rest : List String}
      (more : Walks tree follow links place.dropLast rest found) :
      Walks tree follow links place (".." :: rest) found
  /-- The last name leads to what the walk ends at. -/
  | last {links : Nat} {place : Place} {step : String} (hname : IsName step)
      (hrests : Rests follow (tree.entry? (place ++ [step]))) :
      Walks tree follow links place [step] (place ++ [step])
  | directory {links : Nat} {place found : Place} {step : String} {rest : List String}
      (hname : IsName step) (hentry : tree.entry? (place ++ [step]) = some .directory)
      (more : Walks tree follow links (place ++ [step]) rest found) :
      Walks tree follow links place (step :: rest) found
  | link {links : Nat} {place found : Place} {step target : String} {rest : List String}
      (hname : IsName step) (hentry : tree.entry? (place ++ [step]) = some (.symlink target))
      (hon : follow = true ∨ rest ≠ []) (htarget : target ≠ "")
      (more : Walks tree follow links (behindLink place target)
        (FileTree.steps target ++ rest) found) :
      Walks tree follow (links + 1) place (step :: rest) found

/-- A walk succeeds by these rules and in no other way, and gives what stands where it ends. -/
theorem walk_eq_ok_iff {steps : List String} {what : Option Entry} :
    tree.walk follow links place steps = .ok (found, what) ↔
      tree.Walks follow links place steps found ∧ what = tree.entry? found := by
  constructor
  · intro h
    induction links, place, steps using tree.walk_induct follow with
    | nil links place =>
      rw [walk] at h
      obtain ⟨rfl, rfl⟩ := Prod.mk.inj (Except.ok.inj h)
      exact ⟨.here links place, rfl⟩
    | skip links place step rest hskip ih =>
      rw [walk_skip hskip] at h
      exact (ih h).imp_left (.skip hskip)
    | up links place rest ih =>
      rw [walk_up] at h
      exact (ih h).imp_left .up
    | long links place step rest hskip hup hlong =>
      rw [walk, if_neg hskip, if_neg hup, if_pos hlong] at h
      exact absurd h (by simp)
    | last links place step hname hrests =>
      rw [walk_last hname hrests] at h
      obtain ⟨rfl, rfl⟩ := Prod.mk.inj (Except.ok.inj h)
      exact ⟨.last hname hrests, rfl⟩
    | blocked links place step rest hname hrests hrest =>
      rw [walk_blocked hname hrests hrest] at h
      exact absurd h (by simp)
    | directory links place step rest hname hentry ih =>
      rw [walk_directory hname hentry] at h
      exact (ih h).imp_left (.directory hname hentry)
    | link links place step rest target hname hentry hon ih =>
      rw [walk_link hname hentry hon] at h
      cases links with
      | zero => exact absurd h (by simp)
      | succ left =>
        by_cases htarget : target = ""
        · exact absurd h (by simp [htarget])
        · simp only [if_neg htarget] at h
          exact (ih left rfl h).imp_left (.link hname hentry hon htarget)
  · rintro ⟨h, rfl⟩
    induction h with
    | here => rw [walk]
    | skip hskip _ ih => rw [walk_skip hskip, ih]
    | up _ ih => rw [walk_up, ih]
    | last hname hrests => exact walk_last hname hrests
    | directory hname hentry _ ih => rw [walk_directory hname hentry, ih]
    | link hname hentry hon htarget _ ih =>
      rw [walk_link hname hentry hon]
      simp only [if_neg htarget, ih]

/-- A walk that ends at an entry, by the rules. -/
theorem walk_eq_ok_some_iff {steps : List String} {entry : Entry} :
    tree.walk follow links place steps = .ok (found, some entry) ↔
      tree.Walks follow links place steps found ∧ tree.entry? found = some entry := by
  rw [walk_eq_ok_iff, eq_comm (a := some entry)]

/-! ### The first step -/

theorem walks_nil_iff : tree.Walks follow links place [] found ↔ found = place := by
  constructor
  · rintro ⟨⟩
    rfl
  · rintro rfl
    exact .here links found

theorem walks_skip_iff (hskip : step = "" ∨ step = ".") :
    tree.Walks follow links place (step :: rest) found
      ↔ tree.Walks follow links place rest found := by
  refine ⟨fun h => ?_, .skip hskip⟩
  cases h with
  | skip _ more => exact more
  | up => exact absurd hskip (by decide)
  | last hname | directory hname | link hname => exact absurd hskip hname.not_skip

theorem walks_up_iff : tree.Walks follow links place (".." :: rest) found
    ↔ tree.Walks follow links place.dropLast rest found := by
  refine ⟨fun h => ?_, .up⟩
  cases h with
  | skip hskip => exact absurd hskip (by decide)
  | up more => exact more
  | last hname | directory hname | link hname => exact absurd rfl hname.ne_up

theorem walks_directory_iff (hname : IsName step)
    (hentry : tree.entry? (place ++ [step]) = some .directory) :
    tree.Walks follow links place (step :: rest) found
      ↔ tree.Walks follow links (place ++ [step]) rest found := by
  refine ⟨fun h => ?_, .directory hname hentry⟩
  cases h with
  | skip hskip => exact absurd hskip hname.not_skip
  | up => exact absurd rfl hname.ne_up
  | last _ hrests => exact absurd hentry hrests.ne_directory
  | directory _ _ more => exact more
  | link _ hlink =>
    rw [hentry] at hlink
    exact absurd hlink (by simp)

/-- A walk goes on behind a link with what the link stands for, if it may follow one more. -/
theorem walks_link_iff (hname : IsName step)
    (hentry : tree.entry? (place ++ [step]) = some (.symlink target))
    (hon : follow = true ∨ rest ≠ []) :
    tree.Walks follow links place (step :: rest) found ↔ target ≠ "" ∧ ∃ left, links = left + 1 ∧
      tree.Walks follow left (behindLink place target) (FileTree.steps target ++ rest) found := by
  constructor
  · intro h
    cases h with
    | skip hskip => exact absurd hskip hname.not_skip
    | up => exact absurd rfl hname.ne_up
    | last _ hrests =>
      rw [hentry] at hrests
      rcases hon with rfl | hrest
      · exact absurd rfl (Rests.ne_symlink hrests target)
      · exact absurd rfl hrest
    | directory _ hdirectory =>
      rw [hentry] at hdirectory
      exact absurd hdirectory (by simp)
    | link _ hlink _ htarget more =>
      obtain rfl : target = _ := by simpa [hentry] using hlink
      exact ⟨htarget, _, rfl, more⟩
  · rintro ⟨htarget, left, rfl, more⟩
    exact .link hname hentry hon htarget more

/-- What is neither a directory nor a link ends the walk, and nothing lies behind it. -/
theorem walks_leaf_iff (hname : IsName step) (hrests : Rests true (tree.entry? (place ++ [step]))) :
    tree.Walks follow links place (step :: rest) found ↔ rest = [] ∧ found = place ++ [step] := by
  constructor
  · intro h
    cases h with
    | skip hskip => exact absurd hskip hname.not_skip
    | up => exact absurd rfl hname.ne_up
    | last => exact ⟨rfl, rfl⟩
    | directory _ hentry => exact absurd hentry hrests.ne_directory
    | link _ hentry => exact absurd hentry (hrests.ne_symlink _)
  · rintro ⟨rfl, rfl⟩
    exact .last hname hrests.of_true

/-- A single name leads to what has this name, if no link is followed. -/
theorem walks_name (hname : IsName step) :
    tree.Walks false links place [step] (place ++ [step]) := by
  by_cases hentry : tree.entry? (place ++ [step]) = some .directory
  · exact .directory hname hentry (.here links _)
  · exact .last hname (rests_false_iff.mpr hentry)

end SourceRepair.FileTree
