import SourceRepair.Proofs.Config.Keys
import SourceRepair.Proofs.FileTree.Lookup

/-!
# Which layer of the configuration counts

A layer sets some of the settings. A configuration is loaded whenever the files and assignments set
nothing but settings, each to a value of its kind, and then every setting is that of the highest
layer that sets it (`load_eq_highest`). Settings hold what some layers set if the keys of each
setting lead to it in them; setting a file, or making assignments, puts one more layer on top
(`Holds.addFile`, `Holds.assign`).
-/

namespace SourceRepair

open Setting (at? Apart LeadsToValue)

/-- What some layer sets the settings to. -/
abbrev Layer : Type := ConfigKey → Option Setting

namespace Layer

open ConfigKey

/-- The layer of a file, which sets what the document in it does. -/
def ofFile (tree : FileTree) (path : Path) : Layer := fun key =>
  ((Config.readFile? tree path).bind Toml.Document.ofText?).bind fun members =>
    at? key.path (.table members)

/-- The layer of the settings on the command line, of which the last one for a setting counts. -/
def ofAssignments (given : List (ConfigKey × String)) : Layer := fun key =>
  (given.reverse.lookup key).map key.assigned

/-- The layer of the flags. -/
def ofFlags (flags : ConfigFlags) : Layer
  | .projectRoot => flags.root.map fun path => .string path.spelling
  | .dryRun => if flags.live then some (.bool false) else none
  | .report => flags.report.map fun path => .string path.spelling
  | _ => none

/-- The layer that is there without any file. -/
def builtIn : Layer := fun key =>
  at? key.path Config.builtIn

/-- What the highest of some layers sets the settings to, the highest one first. -/
def highest (layers : List Layer) : Layer := fun key =>
  layers.findSome? fun layer => layer key

theorem highest_append (above below : List Layer) (key : ConfigKey) :
    highest (above ++ below) key = (highest above key).or (highest below key) :=
  List.findSome?_append

theorem highest_cons (layer : Layer) (layers : List Layer) (key : ConfigKey) :
    highest (layer :: layers) key = (layer key).or (highest layers key) := by
  rw [highest, highest, List.findSome?_cons]
  cases layer key <;> rfl

/-- A file is missing, or its document sets nothing but settings, each to a value of its kind. -/
def IsValidFile (tree : FileTree) (path : Path) : Prop :=
  ∀ text, Config.readFile? tree path = some text →
    ∃ members, Toml.Document.ofText? text = some members ∧ Describes [] (.table members)

/-- What a file sets stands in the document in it. -/
theorem ofFile_of_ofText? {tree : FileTree} {path : Path} {text : String}
    {members : List (String × Setting)} (hread : Config.readFile? tree path = some text)
    (hmembers : Toml.Document.ofText? text = some members) :
    ofFile tree path = fun key => at? key.path (.table members) := by
  funext key
  rw [ofFile, hread, Option.bind_some, hmembers, Option.bind_some]

/-- The settings hold what some layers set, each of them a value of its kind. -/
structure Holds (setting : Setting) (layers : List Layer) : Prop where
  table : ∃ members, setting = .table members
  at_path : ∀ key, at? key.path setting = highest layers key
  accepts : ∀ key value, highest layers key = some value → key.Accepts value

variable {tree : FileTree} {path : Path} {setting : Setting} {layers : List Layer}

/-- Once a valid file is set, the settings hold what it sets, and elsewhere what they held. -/
theorem Holds.addFile (h : Holds setting layers) (hfile : IsValidFile tree path) :
    ∃ changed, Config.addFile tree path setting = .ok changed ∧
      Holds changed (ofFile tree path :: layers) := by
  obtain ⟨old, rfl⟩ := h.table
  rw [Config.addFile]
  cases hread : Config.readFile? tree path with
  | none =>
    have hnothing : ∀ key, highest (ofFile tree path :: layers) key = highest layers key := by
      intro key
      rw [highest_cons, ofFile, hread]
      rfl
    exact ⟨_, rfl, h.table, fun key => (h.at_path key).trans (hnothing key).symm,
      fun key value hvalue => h.accepts key value ((hnothing key).symm.trans hvalue)⟩
  | some text =>
    obtain ⟨members, hmembers, hdescribes⟩ := hfile text hread
    have hlayer := ofFile_of_ofText? hread hmembers
    simp only [hmembers]
    refine ⟨_, rfl, ?_, fun key => ?_, fun key value hvalue => ?_⟩
    · rw [Setting.setMembers_eq_merge hdescribes.readPath?]
      exact ⟨_, rfl⟩
    · have hleads : LeadsToValue key.path (.table members) :=
        hdescribes.leadsToValue (Toml.distinct_of_ofText? hmembers) rfl
      rw [Setting.setMembers_eq_merge hdescribes.readPath?, Setting.at?_merge hleads, h.at_path,
        highest_cons, hlayer]
    · rw [highest_cons, hlayer] at hvalue
      rcases Option.or_eq_some_iff.mp hvalue with hvalue | ⟨-, hvalue⟩
      · exact hdescribes.accepts rfl hvalue
      · exact h.accepts key value hvalue

/-! ## Assignments on top -/

/-- The assignment that a setting and a text on the command line stand for. -/
def assignment (given : ConfigKey × String) : Config.Assignment :=
  ⟨given.1.path.map .key, given.1.assigned given.2⟩

/-- A setting and a text as they are written on the command line. -/
def written (given : ConfigKey × String) : String :=
  given.1.name ++ "=" ++ given.2

/-- A text of the right kind is read as the assignment that it stands for. -/
theorem ofText_written {given : ConfigKey × String} (h : given.1.AcceptsText given.2) :
    Config.Assignment.ofText (written given) = .ok (assignment given) := by
  have hname : ∀ key : ConfigKey, '=' ∉ key.name.toList ∧
      Setting.readPath? key.name = some (key.path.map .key) := by
    intro key
    cases key <;> decide +kernel
  obtain ⟨hequals, hpath⟩ := hname given.1
  rw [written, Config.Assignment.ofText_append hequals hpath, h.typedValue_eq]
  rfl

theorem mapM_ofText_written {given : List (ConfigKey × String)}
    (h : ∀ pair ∈ given, pair.1.AcceptsText pair.2) :
    (given.map written).mapM Config.Assignment.ofText = .ok (given.map assignment) := by
  induction given with
  | nil => rfl
  | cons pair more ih =>
    obtain ⟨hpair, hmore⟩ := List.forall_mem_cons.mp h
    rw [List.map_cons, List.mapM_cons, ofText_written hpair, ih hmore]
    rfl

/-- The first of some assignments to a setting is found by its keys. -/
theorem find?_map_assignment (given : List (ConfigKey × String)) (key : ConfigKey) :
    ((given.map assignment).find? (·.steps = key.path.map .key)).map (·.value)
      = (given.lookup key).map key.assigned := by
  induction given with
  | nil => rfl
  | cons pair more ih =>
    rw [List.map_cons, List.find?_cons, List.lookup_cons]
    by_cases hkey : key = pair.1
    · rw [hkey, beq_self_eq_true, decide_eq_true (by rw [assignment])]
      rfl
    · have hsteps : (assignment pair).steps ≠ key.path.map .key := by
        intro hsame
        have hpath := Config.map_key_injective hsame
        exact hkey (eq_of_path_begins (hpath ▸ List.prefix_rfl))
      rw [beq_false_of_ne hkey, decide_eq_false hsteps]
      exact ih

/-- Once assignments are made, the settings hold the last ones, and elsewhere what they held. -/
theorem Holds.assign (h : Holds setting layers) {given : List (ConfigKey × String)}
    (hgiven : ∀ pair ∈ given, pair.1.AcceptsText pair.2) :
    Holds (((given.map assignment).foldl Config.Assignment.add []).foldl
      Config.Assignment.apply setting) (ofAssignments given :: layers) := by
  have hkept : ∀ new ∈ (given.map assignment).foldl Config.Assignment.add [],
      ∃ pair ∈ given, new = assignment pair := by
    intro new hnew
    obtain ⟨pair, hpair, rfl⟩ := List.mem_map.mp (Config.mem_of_mem_foldl_add hnew)
    exact ⟨pair, hpair, rfl⟩
  refine ⟨?_, fun key => ?_, fun key value hvalue => ?_⟩
  · refine Config.exists_table_foldl_apply (fun new hnew => ?_) h.table
    obtain ⟨pair, -, rfl⟩ := hkept new hnew
    rw [assignment]
    cases pair.1 <;> exact ⟨_, _, rfl⟩
  · rw [Config.at?_foldl_apply, Config.find?_foldl_add, ← List.map_reverse, find?_map_assignment,
      h.at_path, highest_cons, ofAssignments]
    intro new hnew
    obtain ⟨pair, hpair, rfl⟩ := hkept new hnew
    exact ⟨pair.1.path, rfl, apart_path key pair.1, (hgiven pair hpair).accepts.ne_table⟩
  · rw [highest_cons] at hvalue
    rcases Option.or_eq_some_iff.mp hvalue with hvalue | ⟨-, hvalue⟩
    · obtain ⟨text, htext, rfl⟩ := Option.map_eq_some_iff.mp hvalue
      exact (hgiven _ (List.mem_reverse.mp (mem_of_lookup htext))).accepts
    · exact h.accepts key value hvalue

/-! ## All layers -/

/-- The built-in settings hold what they set. -/
theorem holds_builtIn : Holds Config.builtIn [builtIn] := by
  have hsame : ∀ key, highest [builtIn] key = at? key.path Config.builtIn := by
    intro key
    rw [highest_cons]
    exact Option.or_none
  refine ⟨⟨_, rfl⟩, fun key => (hsame key).symm, fun key value hvalue => ?_⟩
  rw [hsame] at hvalue
  cases key with
  | report => exact absurd hvalue nofun
  | projectRoot | dryRun | program => exact ⟨_, (Option.some.inj hvalue).symm⟩
  | args => exact ⟨CompilerCommand.tsc.args, (Option.some.inj hvalue).symm⟩
  | format => exact ⟨.tsc, (Option.some.inj hvalue).symm⟩
  | extensions => exact ⟨({} : ScanConfig).extensions, (Option.some.inj hvalue).symm⟩
  | excludeDirs => exact ⟨({} : ScanConfig).excludeDirs, (Option.some.inj hvalue).symm⟩

end Layer

namespace Config

open Layer

/-- The flag for writing files is an assignment behind all others. -/
def liveAssignments (live : Bool) : List (ConfigKey × String) :=
  if live then [(.dryRun, "false")] else []

theorem acceptsText_liveAssignments (live : Bool) :
    ∀ pair ∈ liveAssignments live, pair.1.AcceptsText pair.2 := by
  cases live with
  | false => exact fun _ h => absurd h List.not_mem_nil
  | true => exact List.forall_mem_singleton.mpr (.inr rfl)

theorem readAssignments_written (flags : ConfigFlags) {given : List (ConfigKey × String)}
    (hgiven : ∀ pair ∈ given, pair.1.AcceptsText pair.2)
    (hflags : flags.assignments = given.map written) :
    readAssignments flags = .ok (((given ++ liveAssignments flags.live).map assignment).foldl
      Assignment.add []) := by
  rw [readAssignments, hflags, mapM_ofText_written hgiven, List.map_append]
  cases flags.live <;> rfl

/-- Of the settings on the command line and the flag behind them, the flag is the higher layer. -/
theorem highest_ofAssignments_live (given : List (ConfigKey × String)) (live : Bool)
    (layers : List Layer) (key : ConfigKey) :
    highest (ofAssignments (given ++ liveAssignments live) :: layers) key
      = if key = .dryRun ∧ live = true then some (.bool false)
        else highest (ofAssignments given :: layers) key := by
  cases live with
  | false => simp [liveAssignments]
  | true =>
    rw [highest_cons, highest_cons, ofAssignments, ofAssignments, liveAssignments, if_pos rfl,
      List.reverse_concat, List.lookup_cons]
    cases key <;> rfl

/-- Flags that stand for paths are set over a configuration that is read. -/
theorem setting?_withFlags (config : Config) (flags : ConfigFlags)
    (hlive : flags.live = true → config.dryRun = false) (key : ConfigKey) :
    setting? { config with
      projectRoot := flags.root.getD config.projectRoot
      report := flags.report.or config.report } key
      = (ofFlags flags key).or (config.setting? key) := by
  cases key with
  | projectRoot => cases h : flags.root <;> simp [setting?, ofFlags, h]
  | dryRun =>
    cases h : flags.live with
    | false => simp [setting?, ofFlags, h]
    | true => simp [setting?, ofFlags, h, hlive h]
  | report => cases h : flags.report <;> simp [setting?, ofFlags, h]
  | program | args | format | extensions | excludeDirs => rfl

/-- Every setting but the report has a built-in value. -/
theorem isSome_builtIn {key : ConfigKey} (h : key ≠ .report) :
    (Layer.builtIn key).isSome = true := by
  cases key with
  | report => exact absurd rfl h
  | _ => rfl

/-- Settings that hold what some layers set, among them the built-in one, are read as the
configuration with these settings. -/
theorem exists_config?_of_holds {setting : Setting} {layers : List Layer}
    (h : Holds setting layers) (hbuiltIn : Layer.builtIn ∈ layers) :
    ∃ config, Reading.lenient.config? setting = some config ∧
      ∀ key, config.setting? key = highest layers key := by
  have hsome : ∀ key : ConfigKey, key ≠ .report → ∃ value, at? key.path setting = some value := by
    intro key hkey
    rw [h.at_path, ← Option.isSome_iff_exists, highest, List.findSome?_isSome_iff]
    exact ⟨_, hbuiltIn, isSome_builtIn hkey⟩
  obtain ⟨config, hconfig, hset⟩ :=
    exists_config? (fun key value hvalue => h.accepts key value (h.at_path key ▸ hvalue)) hsome
  exact ⟨config, hconfig, fun key => (hset key).trans (h.at_path key)⟩

/-- The settings of valid files and assignments hold what these set, the highest layer first. -/
theorem exists_settings (tree : FileTree) (directory : Path) (flags : ConfigFlags)
    {given : List (ConfigKey × String)} (huser : IsValidFile tree (userFile directory))
    (hlocal : IsValidFile tree fileName) (hgiven : ∀ pair ∈ given, pair.1.AcceptsText pair.2)
    (hflags : flags.assignments = given.map written) :
    ∃ setting, settings tree directory flags = .ok setting ∧
      Holds setting [ofAssignments (given ++ liveAssignments flags.live), ofFile tree fileName,
        ofFile tree (userFile directory), Layer.builtIn] := by
  obtain ⟨user, hadded, hholds⟩ := holds_builtIn.addFile huser
  obtain ⟨files, haddedToo, hholds⟩ := hholds.addFile hlocal
  have hall : ∀ pair ∈ given ++ liveAssignments flags.live, pair.1.AcceptsText pair.2 :=
    List.forall_mem_append.mpr ⟨hgiven, acceptsText_liveAssignments flags.live⟩
  refine ⟨_, ?_, hholds.assign hall⟩
  rw [settings, readAssignments_written flags hgiven hflags]
  change addFile tree (userFile directory) builtIn >>= _ = _
  rw [hadded]
  change addFile tree fileName user >>= _ = _
  rw [haddedToo]
  rfl

theorem load_of_settings {tree : FileTree} {directory : Path} {flags : ConfigFlags}
    {setting : Setting} {config : Config} (hsettings : settings tree directory flags = .ok setting)
    (hconfig : Reading.lenient.config? setting = some config) :
    load tree directory flags = .ok { config with
      projectRoot := flags.root.getD config.projectRoot
      report := flags.report.or config.report } := by
  simp only [load, hsettings, hconfig, bind, Except.bind]
  rfl

/-- Valid files and assignments are loaded, and each setting is that of the highest layer that sets
it: a flag, the last assignment on the command line, the file in the working directory, the user's
file, and what is built in. Files are written only if the flag for that is there, or the highest
layer that says something about it says so. -/
theorem load_eq_highest (tree : FileTree) (directory : Path) (given : List (ConfigKey × String))
    (root report : Option Path) (live : Bool)
    (huser : IsValidFile tree (userFile directory)) (hlocal : IsValidFile tree fileName)
    (hgiven : ∀ pair ∈ given, pair.1.AcceptsText pair.2) :
    let flags : ConfigFlags := { assignments := given.map written, root, live, report }
    let layers := [ofAssignments given, ofFile tree fileName, ofFile tree (userFile directory)]
    ∃ config, load tree directory flags = .ok config ∧
      (∀ key, config.setting? key = highest (ofFlags flags :: layers ++ [Layer.builtIn]) key) ∧
      (config.dryRun = false → live = true ∨ highest layers .dryRun = some (.bool false)) := by
  intro flags layers
  obtain ⟨setting, hsettings, hholds⟩ :=
    exists_settings tree directory flags huser hlocal hgiven rfl
  obtain ⟨config, hconfig, hset⟩ := exists_config?_of_holds hholds (by simp)
  have hread : ∀ key, config.setting? key
      = if key = .dryRun ∧ live = true then some (.bool false)
        else highest (layers ++ [Layer.builtIn]) key := fun key =>
    (hset key).trans (highest_ofAssignments_live given live _ key)
  have hlive : flags.live = true → config.dryRun = false := by
    intro hon
    have hdry := hread .dryRun
    rw [if_pos ⟨rfl, hon⟩] at hdry
    exact Setting.bool.inj (Option.some.inj hdry)
  have hall : ∀ key, (ofFlags flags key).or (config.setting? key)
      = highest (ofFlags flags :: layers ++ [Layer.builtIn]) key := by
    intro key
    rw [List.cons_append, highest_cons, hread]
    split
    · -- the flag has been an assignment, and is a layer of its own as well
      rename_i hboth
      obtain ⟨rfl, hon⟩ := hboth
      have hflag : ofFlags flags .dryRun = some (.bool false) := if_pos hon
      rw [hflag]
      rfl
    · rfl
  refine ⟨_, load_of_settings hsettings hconfig, fun key => ?_, fun hoff => ?_⟩
  · rw [setting?_withFlags config flags hlive key, hall]
  · by_cases hon : live = true
    · exact .inl hon
    · have hdry := hread .dryRun
      rw [if_neg fun h => hon h.2, highest_append] at hdry
      have hsame : config.dryRun = false := hoff
      rw [setting?, hsame] at hdry
      cases hhighest : highest layers .dryRun with
      | some value =>
        rw [hhighest] at hdry
        exact .inr hdry.symm
      | none =>
        rw [hhighest] at hdry
        have htrue : Setting.bool false = .bool true := Option.some.inj hdry
        exact absurd (Setting.bool.inj htrue) (by decide)

/-- The user's file sets the program and its arguments, the file in the working directory other
arguments and the flag for writing, and the command line the root twice and a report: the program
stays, the arguments are replaced whole, the later root counts, and the format is built in. -/
theorem load_eq_highest_compiler :
    let localText := "dry_run=false\n[compiler]\nargs=[]"
    let userText := "[compiler]\nprogram='p'\nargs=['a']"
    let tree : FileTree := ⟨[], [(["mender.toml"], .ofText localText), (["u"], .directory),
      (["u", "mender.toml"], .ofText userText)]⟩
    let given : List (ConfigKey × String) := [(.projectRoot, "x"), (.projectRoot, "a=b")]
    IsValidFile tree (userFile ⟨"u"⟩) ∧ IsValidFile tree fileName ∧
      (∀ pair ∈ given, pair.1.AcceptsText pair.2) ∧
      ∃ config, load tree ⟨"u"⟩ ⟨["project_root=x", "project_root=a=b"], none, false, some ⟨"r"⟩⟩
          = .ok config ∧
        config.setting? .projectRoot = some (.string "a=b") ∧
        config.setting? .report = some (.string "r") ∧
        config.setting? .program = some (.string "p") ∧
        config.setting? .args = some (.array []) ∧
        config.setting? .format = some (.string "tsc") ∧
        config.dryRun = false := by
  have hlocalDocument : Toml.Document.ofText? "dry_run=false\n[compiler]\nargs=[]"
      = some [("dry_run", .bool false), ("compiler", .table [("args", .array [])])] := by
    cbv
  have huserDocument : Toml.Document.ofText? "[compiler]\nprogram='p'\nargs=['a']"
      = some [("compiler", .table [("program", .string "p"), ("args", .array [.string "a"])])] := by
    cbv
  intro localText userText tree given
  have hlocalRead : readFile? tree fileName = some localText := by
    have hlocate : tree.locate true fileName = .ok (["mender.toml"], .ofText localText) :=
      FileTree.locate_of_walk ["mender.toml"] (by decide +kernel) (by cbv)
    simp only [readFile?, hlocate]
    decide +kernel
  have huserRead : readFile? tree (userFile ⟨"u"⟩) = some userText := by
    have hlocate : tree.locate true (userFile ⟨"u"⟩)
        = .ok (["u", "mender.toml"], .ofText userText) :=
      FileTree.locate_of_walk ["u", "mender.toml"] (by decide +kernel) (by cbv)
    simp only [readFile?, hlocate]
    decide +kernel
  have hlocal : IsValidFile tree fileName := by
    intro text htext
    obtain rfl := Option.some.inj (hlocalRead.symm.trans htext)
    refine ⟨_, hlocalDocument, .table ⟨.dryRun, by decide, by decide⟩ ?_⟩
    refine List.forall_mem_cons.mpr ⟨@ConfigKey.Describes.value .dryRun _ ⟨_, rfl⟩, ?_⟩
    refine List.forall_mem_singleton.mpr (.table ⟨.args, by decide, by decide⟩ ?_)
    exact List.forall_mem_singleton.mpr (@ConfigKey.Describes.value .args _ ⟨[], rfl⟩)
  have huser : IsValidFile tree (userFile ⟨"u"⟩) := by
    intro text htext
    obtain rfl := Option.some.inj (huserRead.symm.trans htext)
    refine ⟨_, huserDocument, .table ⟨.args, by decide, by decide⟩ ?_⟩
    refine List.forall_mem_singleton.mpr (.table ⟨.args, by decide, by decide⟩ ?_)
    refine List.forall_mem_cons.mpr ⟨@ConfigKey.Describes.value .program _ ⟨_, rfl⟩, ?_⟩
    exact List.forall_mem_singleton.mpr (@ConfigKey.Describes.value .args _ ⟨["a"], rfl⟩)
  have hgiven : ∀ pair ∈ given, pair.1.AcceptsText pair.2 := by
    have htext : ∀ text ∈ ["x", "a=b"],
        text ≠ "true" ∧ text ≠ "false" ∧ ¬ WritesWord text.toList := by
      simp only [← wholeNumber?_isSome_iff]
      decide
    exact List.forall_mem_cons.mpr ⟨htext "x" (by simp),
      List.forall_mem_singleton.mpr (htext "a=b" (by simp))⟩
  obtain ⟨config, hload, hset, -⟩ :=
    load_eq_highest tree ⟨"u"⟩ given none (some ⟨"r"⟩) false huser hlocal hgiven
  simp only [ofFile_of_ofText? hlocalRead hlocalDocument,
    ofFile_of_ofText? huserRead huserDocument] at hset
  refine ⟨huser, hlocal, hgiven, config, hload, hset .projectRoot, hset .report, hset .program,
    hset .args, hset .format, ?_⟩
  exact Setting.bool.inj (Option.some.inj (hset .dryRun))

end Config

end SourceRepair
