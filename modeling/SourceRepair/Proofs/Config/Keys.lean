import SourceRepair.Proofs.Config.Assignments
import SourceRepair.Proofs.Toml.Distinct

/-!
# The settings of a configuration

Each setting has keys that lead to it, and takes values of one kind. Something describes settings if
it holds nothing else than such values, in such places (`ConfigKey.Describes`); the keys of a
setting then lead to a value of its kind, or nowhere (`ConfigKey.Describes.leadsToValue`,
`ConfigKey.Describes.accepts`). A configuration is read whenever they lead to a value for every
setting that is needed, and has these values (`Config.exists_config?`).
-/

namespace SourceRepair

open Setting (at? Apart LeadsToValue)

/-- The settings of a configuration. -/
inductive ConfigKey where
  | projectRoot
  | dryRun
  | report
  | program
  | args
  | format
  | extensions
  | excludeDirs
  deriving DecidableEq, Repr

/-- The name of a format in a configuration. -/
def OutputFormat.name : OutputFormat → String
  | .tsc => "tsc"
  | .eslintJson => "eslint-json"

theorem OutputFormat.ofName?_name (format : OutputFormat) :
    OutputFormat.ofName? format.name = some format := by
  cases format <;> rfl

namespace ConfigKey

/-- The keys that lead to a setting. -/
def path : ConfigKey → List String
  | .projectRoot => ["project_root"]
  | .dryRun => ["dry_run"]
  | .report => ["report"]
  | .program => ["compiler", "program"]
  | .args => ["compiler", "args"]
  | .format => ["compiler", "format"]
  | .extensions => ["scan", "extensions"]
  | .excludeDirs => ["scan", "exclude_dirs"]

/-- The name of a setting on the command line. -/
def name (key : ConfigKey) : String :=
  ".".intercalate key.path

/-- The values of the kind that a setting takes. -/
def Accepts : ConfigKey → Setting → Prop
  | .dryRun, value => ∃ flag, value = .bool flag
  | .format, value => ∃ format : OutputFormat, value = .string format.name
  | .args, value | .extensions, value | .excludeDirs, value =>
    ∃ items : List String, value = .array (items.map .string)
  | .projectRoot, value | .report, value | .program, value => ∃ text, value = .string text

/-- The texts of the kind that a setting takes on the command line; lists are not set there. -/
def AcceptsText : ConfigKey → String → Prop
  | .dryRun, text => text = "true" ∨ text = "false"
  | .format, text => ∃ format : OutputFormat, text = format.name
  | .args, _ | .extensions, _ | .excludeDirs, _ => False
  | .projectRoot, text | .report, text | .program, text =>
    text ≠ "true" ∧ text ≠ "false" ∧ ¬ Config.WritesWord text.toList

/-- What a setting is set to by a text on the command line. -/
def assigned : ConfigKey → String → Setting
  | .dryRun, text => .bool (text == "true")
  | _, text => .string text

/-- At the end of the keys `front` stands the value of a setting, or a table on the way to settings
and with nothing else in it. -/
inductive Describes : List String → Setting → Prop
  | value {key : ConfigKey} {value : Setting} : key.Accepts value → Describes key.path value
  | table {front : List String} {members : List (String × Setting)} :
      (∃ key : ConfigKey, front <+: key.path ∧ front ≠ key.path) →
      (∀ member ∈ members, Describes (front ++ [member.1]) member.2) →
      Describes front (.table members)

/-! ## Keys and values -/

variable {key key' : ConfigKey} {front rest : List String} {value setting : Setting}

/-- No setting stands on the way to another one. -/
theorem eq_of_path_begins (h : key.path <+: key'.path) : key = key' := by
  cases key <;> cases key' <;> first | rfl | exact absurd h (by decide)

theorem apart_path (key key' : ConfigKey) : Apart key.path key'.path :=
  ⟨fun h => congrArg path (eq_of_path_begins h), fun h => congrArg path (eq_of_path_begins h).symm⟩

/-- The value of a setting is no table. -/
theorem Accepts.ne_table (h : key.Accepts value) (members : List (String × Setting)) :
    value ≠ .table members := by
  rintro rfl
  cases key <;> simp [Accepts] at h

/-- A text of the right kind is read as a value of that kind. -/
theorem AcceptsText.typedValue_eq {text : String} (h : key.AcceptsText text) :
    Config.typedValue text.toList = key.assigned text := by
  have htext : text ≠ "true" ∧ text ≠ "false" ∧ ¬ Config.WritesWord text.toList →
      Config.typedValue text.toList = .string text := by
    rintro ⟨htrue, hfalse, hword⟩
    rw [Config.typedValue_eq_string (fun h => htrue (String.toList_injective h))
      (fun h => hfalse (String.toList_injective h)) hword, String.ofList_toList]
  have hname : ∀ format : OutputFormat, format.name ≠ "true" ∧ format.name ≠ "false" ∧
      (Config.wholeNumber? format.name.toList).isSome = false := by
    intro format
    cases format <;> decide
  cases key
  case dryRun =>
    rcases h with rfl | rfl
    · rfl
    · rfl
  case format =>
    obtain ⟨format, rfl⟩ := h
    obtain ⟨htrue, hfalse, hword⟩ := hname format
    refine htext ⟨htrue, hfalse, fun hwrites => ?_⟩
    exact Bool.false_ne_true (hword.symm.trans (Config.wholeNumber?_isSome_iff.mpr hwrites))
  case args | extensions | excludeDirs => exact absurd h not_false
  case projectRoot | report | program => exact htext h

theorem AcceptsText.accepts {text : String} (h : key.AcceptsText text) :
    key.Accepts (key.assigned text) := by
  cases key
  case dryRun => exact ⟨_, rfl⟩
  case format => exact h.imp fun _ => congrArg Setting.string
  case args | extensions | excludeDirs => exact absurd h not_false
  case projectRoot | report | program => exact ⟨text, rfl⟩

/-! ## Files that set settings and nothing else -/

/-- The keys of a setting lead on in a table on the way to settings. -/
theorem exists_cons_of_way (hway : ∃ key : ConfigKey, front <+: key.path ∧ front ≠ key.path)
    (hkey : key.path = front ++ rest) : ∃ next more, rest = next :: more := by
  obtain ⟨key', hfront, hne⟩ := hway
  refine List.exists_cons_of_ne_nil ?_
  rintro rfl
  rw [List.append_nil] at hkey
  exact hne (hkey ▸ congrArg path (eq_of_path_begins (hkey ▸ hfront)))

/-- In what describes settings, the keys of a setting lead to a value. -/
theorem Describes.leadsToValue (h : Describes front setting) (hdistinct : setting.Distinct)
    (hkey : key.path = front ++ rest) : LeadsToValue rest setting := by
  induction h generalizing rest with
  | value haccepts =>
    obtain rfl := eq_of_path_begins ⟨rest, hkey.symm⟩
    obtain rfl : rest = [] := by simpa using hkey
    exact haccepts.ne_table
  | table hway hmembers ih =>
    obtain ⟨next, more, rfl⟩ := exists_cons_of_way hway hkey
    obtain _ | _ | _ | _ | _ | _ | ⟨hkeys, hinside⟩ := hdistinct
    refine ⟨_, rfl, hkeys, fun value hvalue => ?_⟩
    have hmem := mem_of_lookup hvalue
    exact ih _ hmem (hinside _ hmem) (by rw [hkey, List.append_assoc]; rfl)

/-- In what describes settings, the keys of a setting lead to a value of its kind, if anywhere. -/
theorem Describes.accepts (h : Describes front setting) (hkey : key.path = front ++ rest)
    (hvalue : at? rest setting = some value) : key.Accepts value := by
  induction h generalizing rest with
  | value haccepts =>
    obtain rfl := eq_of_path_begins ⟨rest, hkey.symm⟩
    obtain rfl : rest = [] := by simpa using hkey
    exact Option.some.inj hvalue ▸ haccepts
  | table hway hmembers ih =>
    obtain ⟨next, more, rfl⟩ := exists_cons_of_way hway hkey
    obtain ⟨inner, hinner, hvalue⟩ := Option.bind_eq_some_iff.mp hvalue
    exact ih _ (mem_of_lookup hinner) (by rw [hkey, List.append_assoc]; rfl) hvalue

/-- What describes settings stands on the way to one. -/
theorem Describes.exists_key (h : Describes front setting) :
    ∃ key : ConfigKey, front <+: key.path := by
  cases h with
  | value => exact ⟨_, List.prefix_rfl⟩
  | table hway => exact hway.imp fun _ h => h.1

/-- What stands in a table that describes settings does so behind one more key. -/
theorem Describes.member {members : List (String × Setting)}
    (h : Describes front (.table members)) :
    ∀ member ∈ members, Describes (front ++ [member.1]) member.2 := by
  generalize htable : Setting.table members = setting at h
  cases h with
  | value haccepts => exact absurd htable.symm (haccepts.ne_table members)
  | table hway hmembers => exact Setting.table.inj htable ▸ hmembers

/-- No key at the top of a file that describes settings is read as a path of several steps. -/
theorem Describes.readPath? {members : List (String × Setting)}
    (h : Describes [] (.table members)) :
    ∀ name ∈ members.map Prod.fst, Setting.readPath? name = some [.key name] := by
  intro name hname
  obtain ⟨member, hmember, rfl⟩ := List.mem_map.mp hname
  obtain ⟨key, more, hkey⟩ := (h.member member hmember).exists_key
  have hfirst : key.path.head? = some member.1 := by
    rw [← hkey]
    rfl
  have hread : ∀ name ∈ key.path.head?, Setting.readPath? name = some [.key name] := by
    cases key <;> decide +kernel
  exact hread _ hfirst

end ConfigKey

/-! ## The configuration that is read -/

namespace Config

/-- What a setting of a configuration is, as a value that sets it. -/
def setting? (config : Config) : ConfigKey → Option Setting
  | .projectRoot => some (.string config.projectRoot.spelling)
  | .dryRun => some (.bool config.dryRun)
  | .report => config.report.map fun path => .string path.spelling
  | .program => some (.string config.compiler.program)
  | .args => some (.array (config.compiler.args.map .string))
  | .format => some (.string config.compiler.format.name)
  | .extensions => some (.array (config.scan.extensions.map .string))
  | .excludeDirs => some (.array (config.scan.excludeDirs.map .string))

/-- A list of texts is read as that list. -/
theorem texts?_map_string (items : List String) :
    Reading.lenient.texts? (.array (items.map .string)) = some items := by
  have hitems : (items.map Setting.string).mapM Setting.toText? = some items := by
    induction items with
    | nil => rfl
    | cons item more ih =>
      rw [List.map_cons, List.mapM_cons, ih]
      rfl
  exact hitems

/-- One key leads to what stands under it. -/
theorem at?_singleton (key : String) (setting : Setting) :
    at? [key] setting = setting.members.lookup key := by
  rw [at?]
  cases setting.members.lookup key <;> rfl

/-- What has something under a key is a table. -/
theorem members?_of_at? {setting value : Setting} {key : String}
    (h : at? [key] setting = some value) :
    Reading.lenient.members? setting = some setting.members := by
  cases setting with
  | table members => rfl
  | _ => exact absurd h (by simp [at?, Setting.members])

/-- What one key leads to is read as the member under that key. -/
theorem member_of_at? {β : Type} {setting value : Setting} {key : String} {absent : Option β}
    {read? : Setting → Option β} {read : β} (h : at? [key] setting = some value)
    (hread : read? value = some read) :
    Reading.member setting.members key read? absent = some read := by
  rw [at?_singleton] at h
  rw [Reading.member, h]
  exact hread

theorem exists_compiler? {setting : Setting} {program : String} {args : List String}
    {format : OutputFormat}
    (hprogram : at? ["program"] setting = some (.string program))
    (hargs : at? ["args"] setting = some (.array (args.map .string)))
    (hformat : at? ["format"] setting = some (.string format.name)) :
    ∃ unknown, Reading.lenient.compiler? setting = some (⟨program, args, format⟩, unknown) := by
  have hname : Reading.lenient.format? (.string format.name) = some format := format.ofName?_name
  have htext : Reading.lenient.text? (.string program) = some program := rfl
  simp only [Reading.compiler?, members?_of_at? hprogram, member_of_at? hprogram htext,
    member_of_at? hargs (texts?_map_string args), member_of_at? hformat hname,
    Option.bind_eq_bind, Option.bind_some]
  exact ⟨_, rfl⟩

theorem exists_scan? {setting : Setting} {extensions excludeDirs : List String}
    (hextensions : at? ["extensions"] setting = some (.array (extensions.map .string)))
    (hexclude : at? ["exclude_dirs"] setting = some (.array (excludeDirs.map .string))) :
    ∃ unknown, Reading.lenient.scan? setting = some (⟨extensions, excludeDirs⟩, unknown) := by
  simp only [Reading.scan?, members?_of_at? hextensions,
    member_of_at? hextensions (texts?_map_string extensions),
    member_of_at? hexclude (texts?_map_string excludeDirs), Option.bind_eq_bind, Option.bind_some]
  exact ⟨_, rfl⟩

/-- The report is the one setting that may be missing. -/
theorem exists_report? {setting : Setting}
    (haccepts : ∀ value, at? ["report"] setting = some value → ConfigKey.Accepts .report value) :
    ∃ report : Option Path,
      Reading.member setting.members "report" Reading.lenient.report? (some none) = some report ∧
      at? ["report"] setting = report.map fun path => .string path.spelling := by
  cases hat : at? ["report"] setting with
  | none =>
    rw [at?_singleton] at hat
    exact ⟨none, by rw [Reading.member, hat], rfl⟩
  | some value =>
    obtain ⟨text, rfl⟩ := haccepts value hat
    exact ⟨some ⟨text⟩, member_of_at? hat rfl, rfl⟩

/-- Keys that start alike lead on from what stands under the first one. -/
theorem exists_at?_cons {setting value : Setting} {key : String} {keys : List String}
    (h : at? (key :: keys) setting = some value) :
    ∃ inner, at? [key] setting = some inner ∧
      ∀ keys, at? keys inner = at? (key :: keys) setting := by
  obtain ⟨inner, hinner, -⟩ := Option.bind_eq_some_iff.mp h
  refine ⟨inner, (at?_singleton key setting).trans hinner, fun keys => ?_⟩
  rw [at?, hinner, Option.bind_some]

/-- Settings in which the keys of all settings but perhaps the report lead to values of their kind
are read as the configuration that has these values. -/
theorem exists_config? {setting : Setting}
    (haccepts : ∀ key value, at? (ConfigKey.path key) setting = some value → key.Accepts value)
    (hsome : ∀ key, key ≠ .report → ∃ value, at? (ConfigKey.path key) setting = some value) :
    ∃ config, Reading.lenient.config? setting = some config ∧
      ∀ key, config.setting? key = at? key.path setting := by
  have hvalue : ∀ key, key ≠ .report →
      ∃ value, at? (ConfigKey.path key) setting = some value ∧ key.Accepts value :=
    fun key hkey => (hsome key hkey).imp fun value h => ⟨h, haccepts key value h⟩
  obtain ⟨_, hroot, root, rfl⟩ := hvalue .projectRoot (by decide)
  obtain ⟨_, hdry, dryRun, rfl⟩ := hvalue .dryRun (by decide)
  obtain ⟨_, hprogram, program, rfl⟩ := hvalue .program (by decide)
  obtain ⟨_, hargs, args, rfl⟩ := hvalue .args (by decide)
  obtain ⟨_, hformat, format, rfl⟩ := hvalue .format (by decide)
  obtain ⟨_, hextensions, extensions, rfl⟩ := hvalue .extensions (by decide)
  obtain ⟨_, hexclude, excludeDirs, rfl⟩ := hvalue .excludeDirs (by decide)
  obtain ⟨compiler, hcompiler, hinCompiler⟩ := exists_at?_cons hprogram
  obtain ⟨unknown, hcommand⟩ := exists_compiler? ((hinCompiler _).trans hprogram)
    ((hinCompiler _).trans hargs) ((hinCompiler _).trans hformat)
  obtain ⟨scan, hscan, hinScan⟩ := exists_at?_cons hextensions
  obtain ⟨unknown', hwanted⟩ := exists_scan? ((hinScan _).trans hextensions)
    ((hinScan _).trans hexclude)
  obtain ⟨report, hreport, hat⟩ := exists_report? (haccepts .report)
  have htext : Reading.lenient.text? (.string root) = some root := rfl
  have hflag : Reading.lenient.flag? (.bool dryRun) = some dryRun := rfl
  simp only [Reading.config?, members?_of_at? hroot, member_of_at? hroot htext,
    member_of_at? hdry hflag, member_of_at? hcompiler hcommand, member_of_at? hscan hwanted,
    hreport, Option.bind_eq_bind, Option.bind_some]
  refine ⟨_, rfl, fun key => ?_⟩
  cases key with
  | projectRoot => exact hroot.symm
  | dryRun => exact hdry.symm
  | report => exact hat.symm
  | program => exact hprogram.symm
  | args => exact hargs.symm
  | format => exact hformat.symm
  | extensions => exact hextensions.symm
  | excludeDirs => exact hexclude.symm

end Config

end SourceRepair
