import SourceRepair.Proofs.FileTree.Lookup

/-!
# Reading texts

What is read at a path is decided by what the path leads to: the bytes of a file, if they encode a
text, and nothing from a device. What a path leads to is what it names, unless that is a link.
-/

namespace SourceRepair.FileTree

variable {tree other : FileTree} {path : Path}

/-- The path does not name a symbolic link. -/
def NotLink (tree : FileTree) (path : Path) : Prop :=
  ∀ place target, tree.locate false path ≠ .ok (place, .symlink target)

/-- The path names a file, if anything. -/
def NamesFile (tree : FileTree) (path : Path) : Prop :=
  ∀ place entry, tree.locate false path = .ok (place, entry) →
    ∃ content mode, entry = .file content mode

/-- The two paths do not name one entry. -/
def Apart (tree : FileTree) (p q : Path) : Prop :=
  ∀ place entry entry', tree.locate false p = .ok (place, entry) →
    tree.locate false q ≠ .ok (place, entry')

theorem NotLink.congr (h : tree.NotLink path)
    (hsame : other.locate false path = tree.locate false path) : other.NotLink path := by
  intro place target
  rw [hsame]
  exact h place target

theorem NamesFile.congr (h : tree.NamesFile path)
    (hsame : other.locate false path = tree.locate false path) : other.NamesFile path := by
  intro place entry
  rw [hsame]
  exact h place entry

theorem Apart.congr {p q : Path} (h : tree.Apart p q)
    (hp : other.locate false p = tree.locate false p)
    (hq : other.locate false q = tree.locate false q) : other.Apart p q := by
  intro place entry entry'
  rw [hp, hq]
  exact h place entry entry'

/-- A file is no link. -/
theorem NamesFile.notLink (h : tree.NamesFile path) : tree.NotLink path := by
  intro place target hlink
  obtain ⟨content, mode, hfile⟩ := h _ _ hlink
  exact absurd hfile (by simp)

/-- A tree that differs from another one at most where a path leads is, for all paths apart from
that one, the same. -/
theorem SameShape.locate_eq_of_apart {p q : Path} (hsame : SameShape tree other)
    (hp : tree.NotLink p) (hq : tree.NotLink q) (hapart : tree.Apart p q)
    (hkept : ∀ place, (∀ entry, tree.locate true p ≠ .ok (place, entry)) →
      other.entry? place = tree.entry? place) (follow : Bool) :
    other.locate follow q = tree.locate follow q := by
  refine hsame.locate_eq fun place entry hfound => hkept place fun entry' hled => ?_
  rw [locate_true hp] at hled
  have hnamed : tree.locate false q = .ok (place, entry) := by
    cases follow with
    | false => exact hfound
    | true => rwa [locate_true hq] at hfound
  exact hapart _ _ _ hled hnamed

/-- Reading looks at nothing but what the path leads to. -/
theorem readText_congr (h : other.locate true path = tree.locate true path) :
    other.readText path = tree.readText path := by
  unfold readText readBytes
  rw [h]

/-- The text of a file is what its bytes encode. -/
theorem readText_of_locate {place : Place} {content : String} {mode : Mode}
    (h : tree.locate true path = .ok (place, .file content.toUTF8 mode)) :
    tree.readText path = .ok content := by
  have hdecode : String.fromUTF8? content.toUTF8 = some content := by
    unfold String.fromUTF8?
    split
    · rfl
    · rename_i hinvalid
      exact absurd content.isValidUTF8 hinvalid
  unfold readText readBytes
  rw [h]
  simp only [bind, Except.bind, hdecode]
  rfl

/-- Bytes that encode a text are the encoding of this text. -/
theorem toUTF8_of_fromUTF8? {bytes : ByteArray} {text : String}
    (h : String.fromUTF8? bytes = some text) : text.toUTF8 = bytes := by
  unfold String.fromUTF8? at h
  split at h
  · obtain rfl := Option.some.inj h
    rfl
  · exact absurd h (by simp)

/-- What is read comes from a file, or it is empty and comes from a device. -/
theorem locate_of_readText {content : String} (h : tree.readText path = .ok content) :
    (content = "" ∧ ∃ place device, tree.locate true path = .ok (place, .device device)) ∨
      ∃ place mode, tree.locate true path = .ok (place, .file content.toUTF8 mode) := by
  unfold readText readBytes at h
  split at h
  · exact absurd h (by simp [bind, Except.bind])
  · rename_i place bytes mode hlocate
    right
    refine ⟨place, mode, ?_⟩
    simp only [bind, Except.bind] at h
    split at h
    · rename_i text hdecode
      obtain rfl := Except.ok.inj h
      rw [toUTF8_of_fromUTF8? hdecode]
      exact hlocate
    · exact absurd h (by simp [throw, throwThe, MonadExceptOf.throw])
  · -- nothing comes from a device
    rename_i place device hlocate
    have hempty : String.fromUTF8? .empty = some "" := rfl
    simp only [bind, Except.bind, hempty] at h
    exact .inl ⟨(Except.ok.inj h).symm, place, device, hlocate⟩
  · exact absurd h (by simp [bind, Except.bind])

/-- What is read at a path that names a file, if anything, comes from this file. -/
theorem NamesFile.locate_of_readText (h : tree.NamesFile path) {content : String}
    (hread : tree.readText path = .ok content) :
    ∃ place mode, tree.locate true path = .ok (place, .file content.toUTF8 mode) := by
  rcases FileTree.locate_of_readText hread with ⟨-, place, device, hlocate⟩ | hfile
  · rw [locate_true h.notLink] at hlocate
    obtain ⟨bytes, mode, hentry⟩ := h place _ hlocate
    exact absurd hentry (by simp)
  · exact hfile

end SourceRepair.FileTree
