import SourceRepair.FileTree.Listing
import SourceRepair.Proofs.FileTree.Reading
import SourceRepair.Proofs.FileTree.WellFormed
import SourceRepair.Scan.Sources

/-!
# Where the listed files stand

The names of a listed file lead from the directory that is searched through directories, so that a
path to the directory, continued by these names, leads to the file and to nothing else
(`walk_of_mem_filesBelow`). Spelling the path takes care of slashes only (`walk_steps_below`). What
the walk over some roots finds are therefore paths that name files, if anything
(`namesFile_of_mem_sourceFiles`).
-/

namespace SourceRepair.FileTree

variable {tree : FileTree} {follow : Bool} {links : Nat} {place directory found : Place}
  {steps names : List String}

/-! ## Walks in parts -/

/-- A walk to a directory can be gone on with from there, though with fewer links to follow. -/
theorem walk_append (h : tree.walk true links place steps = .ok (directory, some .directory)) :
    ∃ left, ∀ follow rest, rest ≠ [] →
      tree.walk follow links place (steps ++ rest) = tree.walk follow left directory rest := by
  rw [walk_eq_ok_some_iff] at h
  obtain ⟨h, hdirectory⟩ := h
  induction h with
  | here links place => exact ⟨links, fun _ _ _ => rfl⟩
  | skip hskip _ ih =>
    obtain ⟨left, hleft⟩ := ih hdirectory
    refine ⟨left, fun follow more hmore => ?_⟩
    rw [List.cons_append, walk_skip hskip, hleft follow more hmore]
  | up _ ih =>
    obtain ⟨left, hleft⟩ := ih hdirectory
    refine ⟨left, fun follow more hmore => ?_⟩
    rw [List.cons_append, walk_up, hleft follow more hmore]
  | last _ hrests => exact absurd hdirectory hrests.ne_directory
  | directory hname hentry _ ih =>
    obtain ⟨left, hleft⟩ := ih hdirectory
    refine ⟨left, fun follow more hmore => ?_⟩
    rw [List.cons_append, walk_directory hname hentry, hleft follow more hmore]
  | @link _ _ _ _ target rest hname hentry _ htarget _ ih =>
    -- the link is not the last step any more, and so it is followed in any case
    obtain ⟨left, hleft⟩ := ih hdirectory
    refine ⟨left, fun follow more hmore => ?_⟩
    have hinner : rest ++ more ≠ [] := by simp [hmore]
    rw [List.cons_append, walk_link hname hentry (.inr hinner)]
    simp only [if_neg htarget]
    rw [← List.append_assoc]
    exact hleft follow more hmore

/-- An empty step on the way changes nothing, unless it is the last one. -/
theorem walk_append_nothing (follow : Bool) (links : Nat) (place : Place) (steps : List String)
    {rest : List String} (hrest : rest ≠ []) :
    tree.walk follow links place (steps ++ "" :: rest)
      = tree.walk follow links place (steps ++ rest) := by
  have hfirst : ∀ front : List String, front ++ "" :: rest ≠ [] := by simp
  have hsecond : ∀ front : List String, front ++ rest ≠ [] := by simp [hrest]
  -- no step is the last one, so it does not matter whether a link at the end is followed
  induction links, place, steps using tree.walk_induct true with
  | nil links place => rw [List.nil_append, List.nil_append, walk_skip (.inl rfl)]
  | skip links place step front hskip ih =>
    rw [List.cons_append, List.cons_append, walk_skip hskip, walk_skip hskip, ih]
  | up links place front ih => rw [List.cons_append, List.cons_append, walk_up, walk_up, ih]
  | long links place step front hskip hup hlong =>
    rw [List.cons_append, List.cons_append, walk, walk, if_neg hskip, if_neg hup, if_pos hlong,
      if_neg hskip, if_neg hup, if_pos hlong]
  | last links place step hname hrests =>
    rw [List.cons_append, List.cons_append, walk_blocked hname hrests (hfirst []),
      walk_blocked hname hrests (hsecond [])]
  | blocked links place step front hname hrests _ =>
    rw [List.cons_append, List.cons_append, walk_blocked hname hrests (hfirst front),
      walk_blocked hname hrests (hsecond front)]
  | directory links place step front hname hentry ih =>
    rw [List.cons_append, List.cons_append, walk_directory hname hentry,
      walk_directory hname hentry, ih]
  | link links place step front target hname hentry _ ih =>
    rw [List.cons_append, List.cons_append, walk_link hname hentry (.inr (hfirst front)),
      walk_link hname hentry (.inr (hsecond front))]
    cases links with
    | zero => rfl
    | succ left =>
      simp only
      rw [← List.append_assoc, ← List.append_assoc, ih left rfl]

/-! ## Names below a directory -/

/-- A listed file stands in the directory itself, or is listed below a directory in there. -/
theorem mem_filesBelow_succ {enter : String → Bool} {depth : Nat} :
    names ∈ tree.filesBelow enter (depth + 1) directory ↔
      ∃ name ∈ tree.children directory,
        (∃ content mode, tree.entry? (directory ++ [name]) = some (.file content mode) ∧
          names = [name]) ∨
        (tree.entry? (directory ++ [name]) = some .directory ∧ enter name = true ∧
          ∃ more ∈ tree.filesBelow enter depth (directory ++ [name]), names = name :: more) := by
  rw [filesBelow, List.mem_flatMap]
  refine exists_congr fun name => and_congr_right fun _ => ?_
  cases hentry : tree.entry? (directory ++ [name]) with
  | none => simp
  | some entry =>
    cases entry with
    | file content mode => simp
    | symlink target => simp
    | device device => simp
    | directory => by_cases henter : enter name = true <;> simp [henter, eq_comm]

/-- The names of a listed file lead to it, if they are short enough to lead anywhere. -/
theorem walk_of_mem_filesBelow (hwell : tree.WellFormed) {enter : String → Bool} {depth : Nat}
    (h : names ∈ tree.filesBelow enter depth directory) {reached : Place × Option Entry}
    (hreached : tree.walk follow links directory names = .ok reached) :
    ∃ content mode, reached = (directory ++ names, some (.file content mode)) := by
  induction depth generalizing directory names with
  | zero => exact absurd h List.not_mem_nil
  | succ depth ih =>
    obtain ⟨name, -, hentry⟩ := mem_filesBelow_succ.mp h
    have hname : ∀ entry, tree.entry? (directory ++ [name]) = some entry →
        ¬ (name = "" ∨ name = ".") ∧ name ≠ ".." := by
      intro entry hsome
      obtain ⟨hnothing, hhere, hup, -⟩ := hwell.name _ entry hsome name (by simp)
      exact ⟨not_or.mpr ⟨hnothing, hhere⟩, hup⟩
    rcases hentry with ⟨content, mode, hfile, rfl⟩ | ⟨hdirectory, -, more, hmore, rfl⟩
    · obtain ⟨hstep, hup⟩ := hname _ hfile
      rw [walk, if_neg hstep, if_neg hup] at hreached
      split at hreached
      · exact absurd hreached (by simp)
      · rw [hfile] at hreached
        exact ⟨content, mode, (Except.ok.inj hreached).symm⟩
    · obtain ⟨hstep, hup⟩ := hname _ hdirectory
      rw [walk, if_neg hstep, if_neg hup] at hreached
      split at hreached
      · exact absurd hreached (by simp)
      · rw [hdirectory] at hreached
        obtain ⟨content, mode, hfound⟩ := ih hmore hreached
        exact ⟨content, mode, by rw [hfound, List.append_assoc, List.singleton_append]⟩

/-- The names of a listed file are names of places, and there are some. -/
theorem names_of_mem_filesBelow (hwell : tree.WellFormed) {enter : String → Bool} {depth : Nat}
    (h : names ∈ tree.filesBelow enter depth directory) :
    names ≠ [] ∧ ∀ name ∈ names, '/' ∉ name.toList := by
  induction depth generalizing directory names with
  | zero => exact absurd h List.not_mem_nil
  | succ depth ih =>
    obtain ⟨name, -, hentry⟩ := mem_filesBelow_succ.mp h
    have hslash : ∀ entry, tree.entry? (directory ++ [name]) = some entry → '/' ∉ name.toList :=
      fun entry hsome => (hwell.name _ entry hsome name (by simp)).2.2.2
    rcases hentry with ⟨content, mode, hfile, rfl⟩ | ⟨hdirectory, -, more, hmore, rfl⟩
    · exact ⟨List.cons_ne_nil _ _, by simpa using hslash _ hfile⟩
    · exact ⟨List.cons_ne_nil _ _, List.forall_mem_cons.mpr ⟨hslash _ hdirectory, (ih hmore).2⟩⟩

/-! ## Spelling the paths -/

/-- A name is joined to a path behind a slash, which may be there already. -/
theorem join_spelling {base : Path} {name : String} (hbase : base.spelling ≠ "")
    (hname : '/' ∉ name.toList) :
    (∃ front, base.spelling.toList = front ++ ['/'] ∧
      (base.join ⟨name⟩).spelling.toList = front ++ '/' :: name.toList) ∨
    (base.join ⟨name⟩).spelling.toList = base.spelling.toList ++ '/' :: name.toList := by
  have hrelative : (Path.mk name).isAbsolute = false := by
    cases hchars : name.toList with
    | nil => simp [Path.isAbsolute, hchars]
    | cons c rest =>
      rw [hchars] at hname
      have hne : c ≠ '/' := fun h => hname (h ▸ List.mem_cons_self)
      simp [Path.isAbsolute, hchars, hne]
  unfold Path.join
  rw [if_neg (by simp [hrelative])]
  split
  · rename_i hnone
    exact absurd (String.toList_eq_nil_iff.mp (List.getLast?_eq_none_iff.mp hnone)) hbase
  · rename_i hslash
    obtain ⟨front, hfront⟩ := List.getLast?_eq_some_iff.mp hslash
    exact .inl ⟨front, hfront, by simp [hfront]⟩
  · exact .inr (by simp)

/-- A path to which a name is joined is not empty, and starts where it started. -/
theorem join_start {base : Path} {name : String} (hbase : base.spelling ≠ "")
    (hname : '/' ∉ name.toList) :
    (base.join ⟨name⟩).spelling ≠ "" ∧ (base.join ⟨name⟩).isAbsolute = base.isAbsolute := by
  have hnonempty : base.spelling.toList ≠ [] := fun h => hbase (String.toList_eq_nil_iff.mp h)
  rw [Ne, ← String.toList_eq_nil_iff, Path.isAbsolute, Path.isAbsolute]
  rcases join_spelling hbase hname with ⟨front, hfront, hspelling⟩ | hspelling
  · rw [hspelling, hfront]
    cases front <;> simp
  · rw [hspelling, List.head?_append_of_ne_nil _ hnonempty]
    simp

/-- A walk along a joined path is one along its parts. -/
theorem walk_steps_join {base : Path} {name : String} (hbase : base.spelling ≠ "")
    (hname : '/' ∉ name.toList) (rest : List String) :
    tree.walk follow links place (FileTree.steps (base.join ⟨name⟩).spelling ++ rest)
      = tree.walk follow links place (FileTree.steps base.spelling ++ name :: rest) := by
  have hlast : Text.pieces '/' name.toList = [name.toList] := Text.pieces_of_not_mem hname
  rcases join_spelling hbase hname with ⟨front, hfront, hspelling⟩ | hspelling
  · have hbase : FileTree.steps base.spelling
        = (Text.pieces '/' front).map String.ofList ++ [""] := by
      rw [FileTree.steps, hfront, Text.pieces_append_cons, List.map_append]
      rfl
    have hjoined : FileTree.steps (base.join ⟨name⟩).spelling
        = (Text.pieces '/' front).map String.ofList ++ [name] := by
      rw [FileTree.steps, hspelling, Text.pieces_append_cons, hlast, List.map_append,
        List.map_singleton, String.ofList_toList]
    rw [hbase, hjoined, List.append_assoc, List.append_assoc]
    exact (walk_append_nothing follow links place _ (List.cons_ne_nil name rest)).symm
  · rw [FileTree.steps, hspelling, Text.pieces_append_cons, hlast, List.map_append,
      List.map_singleton, String.ofList_toList, List.append_assoc]
    rfl

/-- A path below another one is not empty, and starts where that one starts. -/
theorem below_start {root : Path} (hroot : root.spelling ≠ "")
    (hnames : ∀ name ∈ names, '/' ∉ name.toList) :
    (root.below names).spelling ≠ "" ∧ (root.below names).isAbsolute = root.isAbsolute := by
  induction names generalizing root with
  | nil => exact ⟨hroot, rfl⟩
  | cons name more ih =>
    obtain ⟨hname, hmore⟩ := List.forall_mem_cons.mp hnames
    obtain ⟨hjoined, hstart⟩ := join_start hroot hname
    obtain ⟨hbelow, hsame⟩ := ih hjoined hmore
    exact ⟨hbelow, hsame.trans hstart⟩

/-- A walk along a path below another one goes along that one first. -/
theorem walk_steps_below {root : Path} (hroot : root.spelling ≠ "")
    (hnames : ∀ name ∈ names, '/' ∉ name.toList) (rest : List String) :
    tree.walk follow links place (FileTree.steps (root.below names).spelling ++ rest)
      = tree.walk follow links place (FileTree.steps root.spelling ++ (names ++ rest)) := by
  induction names generalizing root with
  | nil => rfl
  | cons name more ih =>
    obtain ⟨hname, hmore⟩ := List.forall_mem_cons.mp hnames
    calc tree.walk follow links place
          (FileTree.steps ((root.join ⟨name⟩).below more).spelling ++ rest)
        = tree.walk follow links place
            (FileTree.steps (root.join ⟨name⟩).spelling ++ (more ++ rest)) :=
          ih (join_start hroot hname).1 hmore
      _ = tree.walk follow links place (FileTree.steps root.spelling ++ name :: (more ++ rest)) :=
          walk_steps_join hroot hname (more ++ rest)

/-! ## The paths found -/

/-- The path to a file listed below a directory leads to this file, or nowhere if it is too long. -/
theorem locate_below (hwell : tree.WellFormed) {root : Path}
    (hroot : tree.locate true root = .ok (directory, .directory)) {enter : String → Bool}
    {depth : Nat} (h : names ∈ tree.filesBelow enter depth directory) {entry : Entry}
    (hfound : tree.locate false (root.below names) = .ok (found, entry)) :
    found = directory ++ names ∧ ∃ content mode, entry = .file content mode := by
  obtain ⟨hfault, hwalk⟩ := locate_eq_ok_iff_walk.mp hroot
  obtain ⟨-, hreached⟩ := locate_eq_ok_iff_walk.mp hfound
  obtain ⟨hsome, hnames⟩ := names_of_mem_filesBelow hwell h
  have hspelling : root.spelling ≠ "" := by
    rintro hempty
    simp [pathFault?, hempty] at hfault
  obtain ⟨left, hleft⟩ := walk_append hwalk
  let start := if root.isAbsolute then [] else tree.home
  have hsteps : tree.walk false linkLimit start (FileTree.steps (root.below names).spelling ++ [])
      = tree.walk false linkLimit start (FileTree.steps root.spelling ++ (names ++ [])) :=
    walk_steps_below hspelling hnames []
  rw [List.append_nil, List.append_nil, hleft false names hsome] at hsteps
  rw [(below_start hspelling hnames).2, hsteps] at hreached
  obtain ⟨content, mode, hfile⟩ := walk_of_mem_filesBelow hwell h hreached
  obtain ⟨rfl, hentry⟩ := Prod.mk.inj hfile
  exact ⟨rfl, content, mode, Option.some.inj hentry⟩

/-- What is found below a directory are paths that name files. -/
theorem namesFile_of_mem_sourcesBelow (hwell : tree.WellFormed) {config : ScanConfig}
    {root path : Path} (hroot : tree.locate true root = .ok (directory, .directory))
    (h : path ∈ tree.sourcesBelow config root directory) : tree.NamesFile path := by
  obtain ⟨names, hnames, rfl⟩ := List.mem_map.mp h
  exact fun place entry hfound =>
    (locate_below hwell hroot (List.mem_filter.mp hnames).1 hfound).2

/-- What is found at a root are paths that name files. -/
theorem namesFile_of_mem_sourcesOf (hwell : tree.WellFormed) {config : ScanConfig}
    {root path : Path} {files : List Path} (hfiles : tree.sourcesOf config root = .ok files)
    (h : path ∈ files) :
    tree.NamesFile path := by
  unfold sourcesOf at hfiles
  split at hfiles
  · exact absurd hfiles (by simp)
  · rename_i place content mode hroot
    obtain rfl := Except.ok.inj hfiles
    obtain rfl := List.mem_singleton.mp h
    intro found entry hfound
    rw [hroot] at hfound
    exact ⟨content, mode, (Prod.mk.inj (Except.ok.inj hfound)).2.symm⟩
  · obtain rfl := Except.ok.inj hfiles
    exact absurd h List.not_mem_nil
  · rename_i directory hroot
    obtain rfl := Except.ok.inj hfiles
    refine namesFile_of_mem_sourcesBelow hwell ?_ h
    rw [locate_true (by simp [hroot]), hroot]
  · split at hfiles
    · exact absurd hfiles (by simp)
    · rename_i hroot
      obtain rfl := Except.ok.inj hfiles
      exact namesFile_of_mem_sourcesBelow hwell hroot h
    · obtain rfl := Except.ok.inj hfiles
      exact absurd h List.not_mem_nil

/-- What is found at some roots are paths that name files. -/
theorem namesFile_of_mem_sourceFiles (hwell : tree.WellFormed) {config : ScanConfig}
    {roots : List Path} {path : Path} (h : path ∈ (tree.sourceFiles config roots).1) :
    tree.NamesFile path := by
  obtain ⟨found, hfound, hpath⟩ := List.mem_flatMap.mp h
  obtain ⟨root, -, rfl⟩ := List.mem_map.mp hfound
  cases hfiles : tree.sourcesOf config root with
  | error cause =>
    rw [hfiles] at hpath
    exact absurd hpath List.not_mem_nil
  | ok files =>
    rw [hfiles] at hpath
    exact namesFile_of_mem_sourcesOf hwell hfiles hpath

end SourceRepair.FileTree
