import SourceRepair.Proofs.FileTree.Listing

/-!
# The source files found below some roots

What stands in a directory is listed by name, and what stands below a directory in it is listed
where its name comes. So the files below a directory are listed in the order of the names that lead
to them, compared one by one (`filesBelow_pairwise`), and each of them is listed once. They are all
the files to which names lead through directories that are entered (`mem_filesBelow_iff`): the depth
to which the search goes is that of the tree, and no file stands deeper.

A file is a source by what follows the last dot of its name, if something stands in front of that
dot (`Path.nameExtension?_eq_some_iff`). That the listing is by extension and by the names of
directories alone is `sourceFiles_eq`.
-/

namespace SourceRepair

namespace FileTree

variable {tree : FileTree} {directory place : Place} {name : String} {names : List String}
  {enter : String → Bool}

/-! ## One directory -/

/-- A place has a name in a directory if it is the directory's place with that name behind it. -/
theorem childName?_eq_some_iff :
    childName? directory place = some name ↔ place = directory ++ [name] := by
  rw [childName?]
  constructor
  · intro h
    split at h
    · rename_i hparent
      obtain ⟨front, rfl⟩ := List.getLast?_eq_some_iff.mp h
      rw [← hparent, List.dropLast_concat]
    · exact absurd h (by simp)
  · rintro rfl
    simp

/-- The names in a directory are those at which something stands. -/
theorem mem_children_iff :
    name ∈ tree.children directory ↔ (tree.entry? (directory ++ [name])).isSome := by
  rw [children, List.mem_mergeSort, List.mem_eraseDups, List.mem_filterMap,
    entry?_of_ne_nil (by simp), List.lookup_isSome_iff]
  refine exists_congr fun stood => and_congr_right fun _ => ?_
  rw [childName?_eq_some_iff, beq_iff_eq]
  exact eq_comm

/-- What is left of a list without repetitions has none. -/
theorem nodup_eraseDups (names : List String) : names.eraseDups.Nodup := by
  induction hlength : names.length using Nat.strongRecOn generalizing names with
  | _ n ih =>
    subst hlength
    cases names with
    | nil => exact List.nodup_nil
    | cons first more =>
      have hshorter : (more.filter fun name => !name == first).length < (first :: more).length :=
        Nat.lt_succ_of_le (List.length_filter_le _ _)
      rw [List.eraseDups_cons, List.nodup_cons, List.mem_eraseDups]
      exact ⟨by simp, ih _ hshorter _ rfl⟩

/-- The names in a directory are listed in increasing order, each of them once. -/
theorem children_pairwise (tree : FileTree) (directory : Place) :
    (tree.children directory).Pairwise (· < ·) := by
  have hsorted : (tree.children directory).Pairwise (· ≤ ·) :=
    List.pairwise_mergeSort' (· ≤ ·) _
  have hnodup : (tree.children directory).Nodup :=
    (List.mergeSort_perm _ _).nodup_iff.mpr (nodup_eraseDups _)
  exact hsorted.imp₂ (fun _ _ hle hne => lt_of_le_of_ne hle hne) hnodup

/-! ## All files below a directory -/

/-- What is listed of a directory for one of the names in it. -/
def filesAt (tree : FileTree) (enter : String → Bool) (depth : Nat) (directory : Place)
    (name : String) : List (List String) :=
  match tree.entry? (directory ++ [name]) with
  | some (.file _ _) => [[name]]
  | some .directory =>
    if enter name then (tree.filesBelow enter depth (directory ++ [name])).map (name :: ·) else []
  | _ => []

theorem filesBelow_succ (tree : FileTree) (enter : String → Bool) (depth : Nat)
    (directory : Place) : tree.filesBelow enter (depth + 1) directory
      = (tree.children directory).flatMap (tree.filesAt enter depth directory) := by
  rw [filesBelow]
  congr 1
  funext name
  rw [filesAt]
  cases tree.entry? (directory ++ [name]) with
  | none => rfl
  | some entry => cases entry <;> rfl

/-- For a name nothing is listed, the file of that name, or what stands in the directory of it. -/
theorem filesAt_cases (tree : FileTree) (enter : String → Bool) (depth : Nat) (directory : Place)
    (name : String) :
    tree.filesAt enter depth directory name = [] ∨
      tree.filesAt enter depth directory name = [[name]] ∨
      tree.filesAt enter depth directory name
        = (tree.filesBelow enter depth (directory ++ [name])).map (name :: ·) := by
  rw [filesAt]
  split
  · exact .inr (.inl rfl)
  · split
    · exact .inr (.inr rfl)
    · exact .inl rfl
  · exact .inl rfl

/-- All that is listed for a name begins with it. -/
theorem exists_of_mem_filesAt {depth : Nat} (h : names ∈ tree.filesAt enter depth directory name) :
    ∃ more, names = name :: more := by
  rcases filesAt_cases tree enter depth directory name with hat | hat | hat
  · rw [hat] at h
    exact absurd h List.not_mem_nil
  · rw [hat] at h
    exact ⟨[], List.mem_singleton.mp h⟩
  · rw [hat] at h
    obtain ⟨more, -, rfl⟩ := List.mem_map.mp h
    exact ⟨more, rfl⟩

/-- The files below a directory are listed in the order of the names that lead to them, each of them
once. -/
theorem filesBelow_pairwise (tree : FileTree) (enter : String → Bool) (depth : Nat)
    (directory : Place) : (tree.filesBelow enter depth directory).Pairwise (· < ·) := by
  induction depth generalizing directory with
  | zero => exact List.Pairwise.nil
  | succ depth ih =>
    rw [filesBelow_succ, List.pairwise_flatMap]
    constructor
    · intro name _
      rcases filesAt_cases tree enter depth directory name with hat | hat | hat
      · rw [hat]
        exact List.Pairwise.nil
      · rw [hat]
        exact List.pairwise_singleton _ _
      · rw [hat]
        exact (ih _).map _ fun _ _ hlt => List.cons_lt_cons_self.mpr hlt
    · refine (children_pairwise tree directory).imp fun hlt names hnames names' hnames' => ?_
      -- the first names decide
      obtain ⟨more, rfl⟩ := exists_of_mem_filesAt hnames
      obtain ⟨more', rfl⟩ := exists_of_mem_filesAt hnames'
      exact List.Lex.rel hlt

/-! ## Which files are listed -/

/-- The names lead from a directory to a file, through directories that may be entered. -/
structure LeadsToFile (tree : FileTree) (enter : String → Bool) (directory : Place)
    (names : List String) : Prop where
  ne_nil : names ≠ []
  file : ∃ content mode, tree.entry? (directory ++ names) = some (.file content mode)
  way : ∀ front name back, names = front ++ name :: back → back ≠ [] →
    tree.entry? (directory ++ front ++ [name]) = some .directory ∧ enter name = true

/-- A single name leads to the file of that name. -/
theorem leadsToFile_singleton : tree.LeadsToFile enter directory [name] ↔
    ∃ content mode, tree.entry? (directory ++ [name]) = some (.file content mode) := by
  refine ⟨LeadsToFile.file, fun h => ⟨List.cons_ne_nil _ _, h, ?_⟩⟩
  intro front first back hsplit hback
  have hlength := congrArg List.length hsplit
  have hpos := List.length_pos_of_ne_nil hback
  simp at hlength
  omega

/-- Of more names the first one leads to a directory, and the others go on from there. -/
theorem leadsToFile_cons {next : String} {more : List String} :
    tree.LeadsToFile enter directory (name :: next :: more) ↔
      tree.entry? (directory ++ [name]) = some .directory ∧ enter name = true ∧
        tree.LeadsToFile enter (directory ++ [name]) (next :: more) := by
  have hplace : ∀ rest, directory ++ name :: rest = directory ++ [name] ++ rest := by simp
  constructor
  · intro h
    obtain ⟨hentry, henter⟩ := h.way [] name (next :: more) rfl (List.cons_ne_nil _ _)
    refine ⟨by simpa using hentry, henter, List.cons_ne_nil _ _, hplace _ ▸ h.file, ?_⟩
    intro front first back hsplit hback
    have hway := h.way (name :: front) first back (by rw [hsplit]; rfl) hback
    rwa [hplace] at hway
  · rintro ⟨hentry, henter, hmore⟩
    refine ⟨List.cons_ne_nil _ _, hplace _ ▸ hmore.file, ?_⟩
    intro front first back hsplit hback
    cases front with
    | nil =>
      obtain ⟨rfl, -⟩ := List.cons.inj hsplit
      exact ⟨by simpa using hentry, henter⟩
    | cons other front =>
      obtain ⟨rfl, hrest⟩ := List.cons.inj hsplit
      have hway := hmore.way front first back hrest hback
      rwa [hplace]

/-- The files listed are those to which not too many names lead. -/
theorem mem_filesBelow_iff {depth : Nat} :
    names ∈ tree.filesBelow enter depth directory ↔
      names.length ≤ depth ∧ tree.LeadsToFile enter directory names := by
  induction depth generalizing directory names with
  | zero =>
    refine ⟨fun h => absurd h List.not_mem_nil, fun ⟨hdepth, h⟩ => ?_⟩
    exact absurd (List.eq_nil_of_length_eq_zero (Nat.le_zero.mp hdepth)) h.ne_nil
  | succ depth ih =>
    have hchild : ∀ {name entry}, tree.entry? (directory ++ [name]) = some entry →
        name ∈ tree.children directory := fun hentry => mem_children_iff.mpr (by rw [hentry]; rfl)
    rw [mem_filesBelow_succ]
    match names with
    | [] =>
      refine ⟨?_, fun h => absurd rfl h.2.ne_nil⟩
      rintro ⟨name, -, ⟨content, mode, -, hnames⟩ | ⟨-, -, more, -, hnames⟩⟩
      · exact absurd hnames (by simp)
      · exact absurd hnames (by simp)
    | [name] =>
      rw [leadsToFile_singleton]
      constructor
      · rintro ⟨first, -, ⟨content, mode, hfile, hnames⟩ | ⟨-, -, more, hmore, hnames⟩⟩
        · obtain ⟨rfl, -⟩ := List.cons.inj hnames
          exact ⟨Nat.succ_le_succ (Nat.zero_le _), content, mode, hfile⟩
        · obtain ⟨-, rfl⟩ := List.cons.inj hnames
          exact absurd rfl (ih.mp hmore).2.ne_nil
      · rintro ⟨-, content, mode, hfile⟩
        exact ⟨name, hchild hfile, .inl ⟨content, mode, hfile, rfl⟩⟩
    | name :: next :: more =>
      rw [leadsToFile_cons]
      constructor
      · rintro ⟨first, -, ⟨content, mode, -, hnames⟩ | ⟨hentry, henter, rest, hrest, hnames⟩⟩
        · exact absurd hnames (by simp)
        · obtain ⟨rfl, rfl⟩ := List.cons.inj hnames
          obtain ⟨hdepth, hmore⟩ := ih.mp hrest
          exact ⟨Nat.succ_le_succ hdepth, hentry, henter, hmore⟩
      · rintro ⟨hdepth, hentry, henter, hmore⟩
        have hrest := ih.mpr ⟨Nat.le_of_succ_le_succ hdepth, hmore⟩
        exact ⟨name, hchild hentry, .inr ⟨hentry, henter, _, hrest, rfl⟩⟩

/-- The greatest of some numbers is none of them exceeded. -/
theorem le_foldl_max (numbers : List Nat) (n : Nat) :
    n ≤ numbers.foldl max n ∧ ∀ m ∈ numbers, m ≤ numbers.foldl max n := by
  induction numbers generalizing n with
  | nil => exact ⟨le_rfl, fun _ h => absurd h List.not_mem_nil⟩
  | cons m more ih =>
    obtain ⟨hstart, hmore⟩ := ih (max n m)
    exact ⟨(le_max_left n m).trans hstart,
      List.forall_mem_cons.mpr ⟨(le_max_right n m).trans hstart, hmore⟩⟩

/-- Nothing stands deeper than the tree is. -/
theorem length_le_height {entry : Entry} (h : tree.entry? place = some entry) :
    place.length ≤ tree.height := by
  by_cases hplace : place = []
  · rw [hplace]
    exact Nat.zero_le _
  · rw [entry?_of_ne_nil hplace] at h
    obtain ⟨front, back, hentries, -⟩ := List.lookup_eq_some_iff.mp h
    have hmem : place.length ∈ tree.entries.map fun stood => stood.1.length :=
      List.mem_map.mpr ⟨_, hentries ▸ List.mem_append_right front List.mem_cons_self, rfl⟩
    exact (le_foldl_max _ 0).2 _ hmem

/-- Searched to the depth of the tree, all files are listed to which names lead. -/
theorem mem_filesBelow_height_iff :
    names ∈ tree.filesBelow enter tree.height directory ↔
      tree.LeadsToFile enter directory names := by
  rw [mem_filesBelow_iff]
  refine and_iff_right_of_imp fun h => ?_
  obtain ⟨content, mode, hfile⟩ := h.file
  have hplace := length_le_height hfile
  rw [List.length_append] at hplace
  exact (Nat.le_add_left _ _).trans hplace

end FileTree

/-! ## Which files are sources -/

namespace Path

/-- A file name has an extension: what follows its last dot, something standing in front of it. -/
def HasExtension (name ext : String) : Prop :=
  ∃ stem, stem ≠ [] ∧ name.toList = stem ++ '.' :: ext.toList ∧ '.' ∉ ext.toList

/-- Cut at its last dot, a name has what follows as its extension if something stands in front. -/
theorem nameExtension?_of_split {name : String} {stem rest : List Char}
    (hname : name.toList = stem ++ '.' :: rest) (hrest : '.' ∉ rest) :
    nameExtension? name = if stem = [] then none else some (String.ofList rest) := by
  rw [nameExtension?, hname, Text.pieces_append_cons, Text.pieces_of_not_mem hrest]
  by_cases hstem : stem = []
  · rw [hstem, if_pos rfl]
    rfl
  · have hjoined := Text.join_pieces '.' stem
    rw [if_neg hstem]
    match hpieces : Text.pieces '.' stem with
    | [] => exact absurd hpieces (Text.pieces_ne_nil '.' stem)
    | [[]] => exact absurd (by rw [← hjoined, hpieces]; rfl) hstem
    | [_ :: _] => rfl
    | first :: second :: more =>
      -- there are at least three pieces, so that none of the special cases is the one
      obtain ⟨third, others, hmore⟩ : ∃ third others, more ++ [rest] = third :: others :=
        List.exists_cons_of_ne_nil (by simp)
      have hlast : (third :: others).getLast? = some rest := hmore ▸ List.getLast?_concat
      rw [List.cons_append, List.cons_append, hmore]
      cases first <;> exact congrArg (Option.map String.ofList) hlast

/-- What is read off a name as its extension is that. -/
theorem nameExtension?_eq_some_iff {name ext : String} :
    nameExtension? name = some ext ↔ HasExtension name ext := by
  constructor
  · intro h
    by_cases hdot : '.' ∈ name.toList
    · obtain ⟨back, front, hname, hback⟩ :=
        List.eq_append_cons_of_mem (List.mem_reverse.mpr hdot)
      have hsplit : name.toList = front.reverse ++ '.' :: back.reverse := by
        simpa using congrArg List.reverse hname
      rw [nameExtension?_of_split hsplit (by simpa using hback)] at h
      obtain ⟨hstem, hext⟩ := Option.ite_none_left_eq_some.mp h
      rw [← Option.some.inj hext]
      exact ⟨front.reverse, hstem, by simpa using hsplit, by simpa using hback⟩
    · rw [nameExtension?, Text.pieces_of_not_mem hdot] at h
      exact absurd h (by simp)
  · rintro ⟨stem, hstem, hname, hext⟩
    rw [nameExtension?_of_split hname hext, if_neg hstem, String.ofList_toList]

example : nameExtension? ".ts" = none ∧ nameExtension? "b.d.ts" = some "ts" := by decide

end Path

namespace FileTree

variable {tree : FileTree} {config : ScanConfig} {directory : Place} {name : String}
  {names : List String}

/-- The names lead from a directory to a source: to a file with one of the extensions, through
directories with none of the names left out. -/
structure IsSourceBelow (tree : FileTree) (config : ScanConfig) (directory : Place)
    (names : List String) : Prop where
  file : ∃ content mode, tree.entry? (directory ++ names) = some (.file content mode)
  extension : ∃ name ext, names.getLast? = some name ∧ Path.HasExtension name ext ∧
    ext ∈ config.extensions
  way : ∀ front name back, names = front ++ name :: back → back ≠ [] →
    tree.entry? (directory ++ front ++ [name]) = some .directory ∧ name ∉ config.excludeDirs

/-- A file is taken if it has one of the extensions. -/
theorem isSource_iff : config.isSource names = true ↔
    ∃ name ext, names.getLast? = some name ∧ Path.HasExtension name ext ∧
      ext ∈ config.extensions := by
  have hsome : config.isSource names = true ↔
      ∃ ext, (names.getLast?).bind Path.nameExtension? = some ext ∧ ext ∈ config.extensions := by
    rw [ScanConfig.isSource]
    cases (names.getLast?).bind Path.nameExtension? with
    | none => simp
    | some ext => simp
  rw [hsome]
  constructor
  · rintro ⟨ext, hext, hmem⟩
    obtain ⟨name, hname, hread⟩ := Option.bind_eq_some_iff.mp hext
    exact ⟨name, ext, hname, Path.nameExtension?_eq_some_iff.mp hread, hmem⟩
  · rintro ⟨name, ext, hname, hext, hmem⟩
    have hread := Path.nameExtension?_eq_some_iff.mpr hext
    exact ⟨ext, Option.bind_eq_some_iff.mpr ⟨name, hname, hread⟩, hmem⟩

/-- A directory is entered if its name is not left out. -/
theorem enters_iff :
    config.enters name = true ↔ name ∉ config.excludeDirs := by
  simp [ScanConfig.enters]

/-- The names of the sources below a directory. -/
def sourceNames (tree : FileTree) (config : ScanConfig) (directory : Place) : List (List String) :=
  (tree.filesBelow config.enters tree.height directory).filter config.isSource

theorem mem_sourceNames_iff :
    names ∈ tree.sourceNames config directory ↔ tree.IsSourceBelow config directory names := by
  rw [sourceNames, List.mem_filter, mem_filesBelow_height_iff, isSource_iff]
  constructor
  · rintro ⟨hleads, hext⟩
    refine ⟨hleads.file, hext, fun front name back hsplit hback => ?_⟩
    obtain ⟨hentry, henter⟩ := hleads.way front name back hsplit hback
    exact ⟨hentry, enters_iff.mp henter⟩
  · intro h
    refine ⟨⟨?_, h.file, fun front name back hsplit hback => ?_⟩, h.extension⟩
    · rintro rfl
      obtain ⟨name, ext, hname, -⟩ := h.extension
      exact absurd hname (by simp)
    · obtain ⟨hentry, hname⟩ := h.way front name back hsplit hback
      exact ⟨hentry, enters_iff.mpr hname⟩

/-- What is found at a root that is no link: the root itself if it is a file, the sources below it
if it is a directory, and nothing otherwise. -/
theorem sourcesOf_getD {root : Path}
    (hroot : ∀ place target, tree.locate false root ≠ .ok (place, .symlink target)) :
    (tree.sourcesOf config root).toOption.getD []
      = match tree.locate false root with
        | .ok (_, .file _ _) => [root]
        | .ok (directory, .directory) => (tree.sourceNames config directory).map root.below
        | _ => [] := by
  rw [sourcesOf]
  cases hlocated : tree.locate false root with
  | error cause => rfl
  | ok found =>
    obtain ⟨place, entry⟩ := found
    cases entry with
    | file content mode => rfl
    | device device => rfl
    | directory => rfl
    | symlink target => exact absurd hlocated (hroot place target)

/-- The source files are listed root by root: a root that is a file itself, whatever its name, and
the sources below one that is a directory, each of them once and in the order of the names that
lead to them. Nothing is listed of a root that is not there. -/
theorem sourceFiles_eq (tree : FileTree) (config : ScanConfig) {roots : List Path}
    (hroots : ∀ root ∈ roots, ∀ place target,
      tree.locate false root ≠ .ok (place, .symlink target)) :
    ∃ below : Place → List (List String),
      (∀ directory, (below directory).Pairwise (· < ·) ∧
        ∀ names, names ∈ below directory ↔ tree.IsSourceBelow config directory names) ∧
      (tree.sourceFiles config roots).1 = roots.flatMap fun root =>
        match tree.locate false root with
        | .ok (_, .file _ _) => [root]
        | .ok (directory, .directory) => (below directory).map root.below
        | _ => [] := by
  refine ⟨tree.sourceNames config, fun directory => ⟨?_, fun names => mem_sourceNames_iff⟩, ?_⟩
  · exact (filesBelow_pairwise tree config.enters tree.height directory).filter _
  · rw [sourceFiles, List.flatMap_map]
    exact List.flatMap_congr fun root hroot => sourcesOf_getD (hroots root hroot)

/-- A name that is left out is that of a directory below a root: a file of that name is listed, and
so is a file of any name that is a root. A link is not, nor is a name with nothing in front of its
dot. -/
theorem sourceFiles_eq_leftOut :
    let config : ScanConfig := { extensions := ["t"], excludeDirs := ["s.t"] }
    let file := Entry.ofText ""
    let tree : FileTree := ⟨[], [(["f"], file), (["s.t"], .directory), (["s.t", "b.d.t"], file),
      (["s.t", "a"], .directory), (["s.t", "a", "s.t"], file), (["s.t", "a", ".t"], file),
      (["s.t", "s.t"], .directory), (["s.t", "s.t", "c.t"], file),
      (["s.t", "l.t"], .symlink "b.t")]⟩
    let roots : List Path := [⟨"s.t"⟩, ⟨"x"⟩, ⟨"f"⟩]
    (∀ root ∈ roots, ∀ place target, tree.locate false root ≠ .ok (place, .symlink target)) ∧
      ∃ below : Place → List (List String),
        (∀ directory, (below directory).Pairwise (· < ·) ∧
          ∀ names, names ∈ below directory ↔ tree.IsSourceBelow config directory names) ∧
        (tree.sourceFiles config roots).1
          = (below ["s.t"]).map (Path.below ⟨"s.t"⟩) ++ [⟨"f"⟩] ∧
        (tree.sourceFiles config roots).1 = [⟨"s.t/a/s.t"⟩, ⟨"s.t/b.d.t"⟩, ⟨"f"⟩] := by
  intro config file tree roots
  have hdirectory : tree.locate false ⟨"s.t"⟩ = .ok (["s.t"], .directory) :=
    locate_of_walk ["s.t"] (by decide +kernel) (by cbv)
  have hgone : tree.locate false ⟨"x"⟩ = .error .noEntry := by
    cbv
  have hfile : tree.locate false ⟨"f"⟩ = .ok (["f"], file) :=
    locate_of_walk ["f"] (by decide +kernel) (by cbv)
  have hroots : ∀ root ∈ roots, ∀ place target,
      tree.locate false root ≠ .ok (place, .symlink target) := by
    simp [roots, hdirectory, hgone, hfile, file, Entry.ofText]
  obtain ⟨below, hbelow, hfound⟩ := sourceFiles_eq tree config hroots
  refine ⟨hroots, below, hbelow, ?_, by cbv⟩
  rw [hfound]
  simp [roots, hdirectory, hgone, hfile, file, Entry.ofText]

end FileTree
end SourceRepair
