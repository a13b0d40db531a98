import SourceRepair.Proofs.FileTree.Replacing
import SourceRepair.Proofs.FileTree.WellFormed

/-!
# Files put over files and links

A file is replaced where its path names it: if that is a link, the file that the link leads to stays
as it is, and the link is gone. A path that comes to the link then ends at the new file, and any
other path leads where it led before (`PutAt.locate_cases_of_link`).

What another path leads to is not touched by this as long as it is not what the written path leads
to (`Overwrites.locate_eq`): a path through the link that is gone would have led there as well. Nor
does a path come to lead there by it (`Overwrites.locate_of_locate`).
-/

namespace SourceRepair.FileTree

variable {tree after : FileTree} {links links' : Nat} {place named led found : Place}
  {steps : List String} {path other : Path} {entry : Entry} {content : ByteArray} {mode : Mode}

/-! ## Walks -/

/-- Where a walk ends at a link, one that follows it goes on to what the link leads to. -/
theorem WellFormed.exists_walk_behindLink (hwell : tree.WellFormed) {target : String}
    {reached : Place × Option Entry} (hplace : tree.entry? place = some .directory)
    (h : tree.walk false links place steps = .ok (named, some (.symlink target)))
    (h' : tree.walk true links place steps = .ok reached) :
    ∃ left, tree.walk true left (behindLink named.dropLast target) (FileTree.steps target)
      = .ok reached := by
  obtain ⟨led, what⟩ := reached
  rw [walk_eq_ok_some_iff] at h
  rw [walk_eq_ok_iff] at h'
  obtain ⟨h, hnamed⟩ := h
  obtain ⟨h', rfl⟩ := h'
  simp only [walk_eq_ok_iff, and_true]
  induction h with
  | here =>
    rw [hplace] at hnamed
    exact absurd hnamed (by simp)
  | skip hskip _ ih => exact ih hplace hnamed ((walks_skip_iff hskip).mp h')
  | up _ ih => exact ih (hwell.parent_directory hplace) hnamed (walks_up_iff.mp h')
  | last hname _ =>
    -- the link is the last step
    obtain ⟨-, left, -, h'⟩ := (walks_link_iff hname hnamed (.inl rfl)).mp h'
    rw [List.append_nil] at h'
    rw [List.dropLast_concat]
    exact ⟨left, h'⟩
  | directory hname hentry _ ih => exact ih hentry hnamed ((walks_directory_iff hname hentry).mp h')
  | link hname hentry _ _ _ ih =>
    obtain ⟨-, left, hleft, h'⟩ := (walks_link_iff hname hentry (.inl rfl)).mp h'
    obtain rfl := Nat.succ.inj hleft
    exact ih (behindLink_directory hplace _) hnamed h'

/-- A walk that meets the link over which a file is put ends there afterwards. It could only have
ended where the link leads or, if it does not follow the last link, at the link. -/
theorem PutAt.walk_cases_of_link {follow : Bool} {target : String} {leaf : Entry}
    (hwell : tree.WellFormed) (hput : tree.PutAt named (.file content mode) after)
    (hnamed : tree.entry? named = some (.symlink target)) (hleaf : leaf ≠ .directory)
    (hled : tree.walk true links' (behindLink named.dropLast target) (FileTree.steps target)
      = .ok (led, some leaf))
    (hplace : tree.entry? place = some .directory)
    (h : tree.walk follow links place steps = .ok (found, some entry)) :
    after.walk follow links place steps = .ok (found, some entry) ∨
      after.walk follow links place steps = .ok (named, some (.file content mode)) ∧
        found = if follow then led else named := by
  have hfile := hput.entry?_self
  have hrests : ∀ {follow}, Rests follow (after.entry? named) := hfile ▸ trivial
  have hdirectory : ∀ {q}, tree.entry? q = some .directory → q ≠ named := by
    rintro q hq rfl
    rw [hnamed] at hq
    exact absurd hq (by simp)
  rw [walk_eq_ok_some_iff] at h ⊢
  rw [walk_eq_ok_some_iff]
  obtain ⟨h, hfound⟩ := h
  suffices (after.Walks follow links place steps found ∧ found ≠ named) ∨
      after.Walks follow links place steps named ∧ found = if follow then led else named from
    this.imp (fun ⟨hwalks, hne⟩ => ⟨hwalks, by rw [hput.entry?_of_ne hne, hfound]⟩)
      (fun ⟨hwalks, heq⟩ => ⟨⟨hwalks, hfile⟩, heq⟩)
  induction h with
  | here links place => exact .inl ⟨.here links place, hdirectory hplace⟩
  | skip hskip _ ih =>
    exact (ih hplace hfound).imp (.imp_left (.skip hskip)) (.imp_left (.skip hskip))
  | up _ ih => exact (ih (hwell.parent_directory hplace) hfound).imp (.imp_left .up) (.imp_left .up)
  | @last links place step hname hrests' =>
    by_cases hmet : place ++ [step] = named
    · rw [hmet, hnamed] at hrests'
      obtain rfl : follow = false := hrests'
      exact .inr ⟨hmet ▸ .last hname (hmet ▸ hrests), hmet⟩
    · rw [← hput.entry?_of_ne hmet] at hrests'
      exact .inl ⟨.last hname hrests', hmet⟩
  | directory hname hentry _ ih =>
    have hkept := (hput.entry?_of_ne (hdirectory hentry)).trans hentry
    exact (ih hentry hfound).imp (.imp_left (.directory hname hkept))
      (.imp_left (.directory hname hkept))
  | @link links place found step target' rest hname hentry hon htarget more ih =>
    by_cases hmet : place ++ [step] = named
    · -- the walk went on behind the link to what the link leads to, and there it ended
      subst hmet
      obtain rfl : target' = target := by simpa [hnamed] using hentry.symm
      rw [List.dropLast_concat] at hled
      have hbehind := behindLink_directory hplace target'
      have hwalk := walk_eq_ok_some_iff.mpr ⟨more, hfound⟩
      obtain rfl := hwell.eq_nil_of_walk_append hbehind hleaf hled hwalk
      obtain rfl : follow = true := hon.resolve_right (· rfl)
      obtain ⟨rfl, -⟩ := Prod.mk.inj (hwell.walk_append_of_leaf hbehind hleaf hled hwalk)
      exact .inr ⟨.last hname hrests, rfl⟩
    · have hkept := (hput.entry?_of_ne hmet).trans hentry
      exact (ih (behindLink_directory hplace target') hfound).imp
        (.imp_left (.link hname hkept hon htarget)) (.imp_left (.link hname hkept hon htarget))

/-- A walk that ends elsewhere has met no file that was put. -/
theorem PutAt.walk_of_walk {follow : Bool} {what : Option Entry}
    (hput : tree.PutAt named (.file content mode) after)
    (h : after.walk follow links place steps = .ok (found, what)) (hne : found ≠ named) :
    tree.walk follow links place steps = .ok (found, what) := by
  have hstood : ∀ {q entry}, after.entry? q = some entry → (entry ≠ .file content mode) →
      tree.entry? q = some entry := by
    intro q entry hq hentry
    rw [← hput.entry?_of_ne, hq]
    rintro rfl
    rw [hput.entry?_self] at hq
    exact hentry (Option.some.inj hq).symm
  rw [walk_eq_ok_iff] at h ⊢
  obtain ⟨h, rfl⟩ := h
  refine ⟨?_, hput.entry?_of_ne hne⟩
  induction h with
  | here links place => exact .here links place
  | skip hskip _ ih => exact .skip hskip (ih hne)
  | up _ ih => exact .up (ih hne)
  | last hname hrests => exact .last hname (hput.entry?_of_ne hne ▸ hrests)
  | directory hname hentry _ ih => exact .directory hname (hstood hentry (by simp)) (ih hne)
  | link hname hentry hon htarget _ ih =>
    exact .link hname (hstood hentry (by simp)) hon htarget (ih hne)

/-! ## Paths -/

/-- A path is looked up from a directory. -/
theorem WellFormed.start_directory (hwell : tree.WellFormed) (path : Path) :
    tree.entry? (if path.isAbsolute then [] else tree.home) = some .directory := by
  split
  · exact entry?_nil tree
  · exact hwell.home

/-- Where a file is put over a link, a path that comes to the link ends there, and any other one
leads where it led before. -/
theorem PutAt.locate_cases_of_link {follow : Bool} {target : String} {leaf : Entry}
    (hwell : tree.WellFormed) (hput : tree.PutAt named (.file content mode) after)
    (hnamed : tree.locate false path = .ok (named, .symlink target))
    (hled : tree.locate true path = .ok (led, leaf)) (hleaf : leaf ≠ .directory)
    (h : tree.locate follow other = .ok (found, entry)) :
    after.locate follow other = .ok (found, entry) ∨
      after.locate follow other = .ok (named, .file content mode) ∧
        found = if follow then led else named := by
  obtain ⟨left, hbehind⟩ := hwell.exists_walk_behindLink (hwell.start_directory path)
    (locate_eq_ok_iff_walk.mp hnamed).2 (locate_eq_ok_iff_walk.mp hled).2
  obtain ⟨hfault, hwalk⟩ := locate_eq_ok_iff_walk.mp h
  rw [locate_eq_ok_iff_walk, locate_eq_ok_iff_walk, hput.home]
  refine (hput.walk_cases_of_link hwell (entry?_of_locate hnamed) hleaf hbehind
    (hwell.start_directory other) hwalk).imp (fun h => ⟨hfault, h⟩) (fun h => ⟨⟨hfault, h.1⟩, h.2⟩)

/-- The second tree is the first one after a write to a path that leads to a file: a file stands
where the path names something. -/
structure Overwrites (tree : FileTree) (path : Path) (led : Place) (after : FileTree) : Prop where
  leads : ∃ content mode, tree.locate true path = .ok (led, .file content mode)
  puts : ∃ named old content mode, tree.locate false path = .ok (named, old) ∧
    tree.PutAt named (.file content mode) after

/-- A write to a path that leads to a file. -/
theorem Overwrites.of_write {text : String}
    (hled : tree.locate true path = .ok (led, .file content mode))
    (hwrite : tree.writeAtomically path text = (.ok (), after)) :
    tree.Overwrites path led after where
  leads := ⟨content, mode, hled⟩
  puts := by
    obtain ⟨mode', named, old, -, hnamed, hput⟩ := writeAtomically_eq_ok hwrite
    exact ⟨named, old, text.toUTF8, mode', hnamed, hput⟩

namespace Overwrites

/-- What is written over is a file or a link, so that all directories stay. -/
theorem exists_named (hwrite : tree.Overwrites path led after) :
    ∃ named old content mode, tree.locate false path = .ok (named, old) ∧
      tree.PutAt named (.file content mode) after ∧
      ((∃ target, old = .symlink target) ∨
        named = led ∧ ∃ content mode, old = .file content mode) := by
  obtain ⟨old', mode', hled⟩ := hwrite.leads
  obtain ⟨named, old, content, mode, hnamed, hput⟩ := hwrite.puts
  refine ⟨named, old, content, mode, hnamed, hput, ?_⟩
  by_cases hlink : ∃ target, old = .symlink target
  · exact .inl hlink
  · -- the path names what it leads to
    right
    have hnamed' := locate_true_of_ne_symlink (fun target heq => hlink ⟨target, heq⟩) hnamed
    obtain ⟨rfl, rfl⟩ := Prod.mk.inj (Except.ok.inj (hnamed'.symm.trans hled))
    exact ⟨rfl, old', mode', rfl⟩

theorem wellFormed (hwrite : tree.Overwrites path led after) (hwell : tree.WellFormed) :
    after.WellFormed := by
  obtain ⟨named, old, content, mode, hnamed, hput, hold⟩ := hwrite.exists_named
  have hentry := entry?_of_locate hnamed
  have hdirectory : ∀ q, tree.entry? q = some .directory → after.entry? q = some .directory := by
    intro q hq
    rw [hput.entry?_of_ne, hq]
    rintro rfl
    rw [hentry] at hq
    rcases hold with ⟨target, rfl⟩ | ⟨-, content, mode, rfl⟩ <;> simp at hq
  have hstood : ∀ q entry, after.entry? q = some entry → ∃ entry, tree.entry? q = some entry := by
    intro q entry hq
    rw [hput.entries] at hq
    split at hq
    · rename_i heq
      exact ⟨old, heq ▸ hentry⟩
    · exact ⟨entry, hq⟩
  exact {
    home := hput.home ▸ hdirectory _ hwell.home
    parent := fun q entry hq => by
      obtain ⟨before, hbefore⟩ := hstood q entry hq
      exact hdirectory _ (hwell.parent q before hbefore)
    name := fun q entry hq => by
      obtain ⟨before, hbefore⟩ := hstood q entry hq
      exact hwell.name q before hbefore }

/-- What other paths lead to does not stand where the written path names something. -/
theorem ne_named (hwrite : tree.Overwrites path led after) (hwell : tree.WellFormed)
    {old : Entry} (hnamed : tree.locate false path = .ok (named, old))
    (h : tree.locate true other = .ok (found, entry)) (hne : found ≠ led) : found ≠ named := by
  obtain ⟨named', old', -, -, hnamed', -, hold⟩ := hwrite.exists_named
  obtain ⟨rfl, rfl⟩ : named' = named ∧ old' = old := by
    simpa using hnamed'.symm.trans hnamed
  rintro rfl
  rcases hold with ⟨target, rfl⟩ | ⟨rfl, -⟩
  · have hentry : tree.entry? found = some entry := entry?_of_locate h
    rw [entry?_of_locate hnamed] at hentry
    exact hwell.ne_symlink_of_walk (hwell.start_directory other) (locate_eq_ok_iff_walk.mp h).2
      target (Option.some.inj hentry).symm
  · exact hne rfl

/-- A path that leads elsewhere leads to what it led to before. -/
theorem locate_eq (hwrite : tree.Overwrites path led after) (hwell : tree.WellFormed)
    (h : tree.locate true other = .ok (found, entry)) (hne : found ≠ led) :
    after.locate true other = .ok (found, entry) := by
  obtain ⟨old', mode', hled⟩ := hwrite.leads
  obtain ⟨named, old, content, mode, hnamed, hput, hold⟩ := hwrite.exists_named
  rcases hold with ⟨target, rfl⟩ | ⟨rfl, content', mode'', rfl⟩
  · exact (hput.locate_cases_of_link hwell hnamed hled (by simp) h).resolve_right fun hmet =>
      hne hmet.2
  · rw [hput.locate_eq (entry?_of_locate hnamed) fun entry' h' => ?_, h]
    rw [h] at h'
    obtain ⟨rfl, -⟩ : found = named ∧ entry = entry' := by simpa using h'
    exact hne rfl

/-- A path that comes to what another path leads to elsewhere came there before. -/
theorem locate_of_locate (hwrite : tree.Overwrites path led after) (hwell : tree.WellFormed)
    (h : tree.locate true other = .ok (found, entry)) (hne : found ≠ led) {later : Path}
    {entry' : Entry} (hlater : after.locate true later = .ok (found, entry')) :
    tree.locate true later = .ok (found, entry') := by
  obtain ⟨named, old, content, mode, hnamed, hput, -⟩ := hwrite.exists_named
  obtain ⟨hfault, hwalk⟩ := locate_eq_ok_iff_walk.mp hlater
  refine locate_eq_ok_iff_walk.mpr ⟨hfault, ?_⟩
  rw [hput.home] at hwalk
  exact hput.walk_of_walk hwalk (hwrite.ne_named hwell hnamed h hne)

end Overwrites

end SourceRepair.FileTree
