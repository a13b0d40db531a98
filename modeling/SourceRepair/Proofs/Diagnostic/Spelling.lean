import SourceRepair.Diagnostic.CompilerText
import SourceRepair.Proofs.Diagnostic.Grouping
import SourceRepair.Proofs.Path.Spelling

/-!
# Spellings of one file in a compiler's output

A compiler may spell one file in several ways. The diagnostics of its output are grouped by the
pieces of the reported paths as seen from the root, and nothing is lost on the way
(`groupByFile_ofCompilerText`). Spellings that differ by a `..` are not unified: what a directory is
called says nothing about where it leads.
-/

namespace SourceRepair.Diagnostic

/-- The path that a line reports an error for, as it is spelled there. -/
def reportedPath? (line : List Char) : Option Path :=
  (splitPath? [] (Text.trimEnd line)).map fun split => ⟨String.ofList split.1⟩

/-- The diagnostics of an output, each with the path that was reported. -/
def reports (root : Path) (text : String) : List (Path × Diagnostic) :=
  (Line.ofText text.toList).filterMap fun line =>
    (reportedPath? line.text).bind fun path => (ofLine? root line.text).map (path, ·)

/-- The file of a diagnostic is the path that its line reports, as seen from the root. -/
theorem file_of_ofLine? {root : Path} {line : List Char} {d : Diagnostic}
    (h : ofLine? root line = some d) :
    ∃ path, reportedPath? line = some path ∧ d.file = root.resolve path := by
  simp only [ofLine?, bind, Option.bind_eq_some_iff] at h
  obtain ⟨⟨path, tail⟩, hsplit, _, _, _, _, hd⟩ := h
  obtain rfl := Option.some.inj hd
  exact ⟨⟨String.ofList path⟩, by rw [reportedPath?, hsplit]; rfl, rfl⟩

/-- All diagnostics of an output are reports. -/
theorem map_snd_reports (root : Path) (text : String) :
    (reports root text).map (·.2) = ofCompilerText root text := by
  rw [reports, List.map_filterMap, ofCompilerText]
  congr 1
  funext line
  cases h : ofLine? root line.text with
  | none => cases reportedPath? line.text <;> rfl
  | some d =>
    obtain ⟨path, hpath, -⟩ := file_of_ofLine? h
    rw [hpath]
    rfl

theorem file_of_mem_reports {root : Path} {text : String} {report : Path × Diagnostic}
    (h : report ∈ reports root text) : report.2.file = root.resolve report.1 := by
  obtain ⟨line, -, h⟩ := List.mem_filterMap.mp h
  obtain ⟨path, hpath, h⟩ := Option.bind_eq_some_iff.mp h
  obtain ⟨d, hd, rfl⟩ := Option.map_eq_some_iff.mp h
  obtain ⟨path', hpath', hfile⟩ := file_of_ofLine? hd
  obtain rfl : path = path' := Option.some.inj (hpath.symm.trans hpath')
  exact hfile

/-- The files of an output, seen from an absolute root, are plain paths, which resolve to
themselves. Two reports are in one group exactly when the reported paths, joined to the root, have
the same pieces, empty ones and `.` left out. Whatever is grouped, the groups are a partition in the
order of the paths that keeps the order within a file, and each goes by the first spelling seen. -/
theorem groupByFile_ofCompilerText (root : Path) (hroot : root.isAbsolute = true) (text : String) :
    (reports root text).map (·.2) = ofCompilerText root text ∧
      (∀ report ∈ reports root text, report.2.file = root.resolve report.1 ∧
        report.2.file.IsPlain ∧ root.resolve report.2.file = report.2.file) ∧
      (∀ report ∈ reports root text, ∀ other ∈ reports root text,
        (∃ group ∈ groupByFile (ofCompilerText root text),
            report.2 ∈ group.2 ∧ other.2 ∈ group.2) ↔
          (root.join report.1).plainPieces = (root.join other.1).plainPieces) ∧
      ∀ diagnostics, Partition diagnostics (groupByFile diagnostics) ∧
        NamedByFirst (groupByFile diagnostics) := by
  have hmem : ∀ report ∈ reports root text, report.2 ∈ ofCompilerText root text :=
    fun report hreport => map_snd_reports root text ▸ List.mem_map_of_mem hreport
  refine ⟨map_snd_reports root text, fun report hreport => ?_,
    fun report hreport other hother => ?_,
    fun diagnostics => ⟨groupByFile_partition diagnostics, groupByFile_namedByFirst diagnostics⟩⟩
  · have hplain := Path.isPlain_resolve hroot report.1
    rw [file_of_mem_reports hreport]
    exact ⟨rfl, hplain, hplain.resolve_eq root⟩
  · rw [(groupByFile_partition _).exists_mem_iff (hmem report hreport) (hmem other hother),
      file_of_mem_reports hreport, file_of_mem_reports hother]
    exact Path.components_resolve_eq_iff hroot report.1 other.1

/-- Four spellings of one file are in one group, and a fifth one with a `..` is not. -/
theorem groupByFile_ofCompilerText_spellings :
    let text := "a.ts(1,1): error E: m\n./a.ts(2,1): error E: m\n.//a.ts(3,1): error E: m\n" ++
      "/w/a.ts(4,1): error E: m\nb/../a.ts(5,1): error E: m\n"
    (⟨"/w"⟩ : Path).isAbsolute = true ∧
      ∀ report ∈ reports ⟨"/w"⟩ text, (∃ group ∈ groupByFile (ofCompilerText ⟨"/w"⟩ text),
        report.2 ∈ group.2 ∧ (⟨⟨"/w/a.ts"⟩, 1, 1, "E", "m"⟩ : Diagnostic) ∈ group.2) ↔
          report.1 ≠ ⟨"b/../a.ts"⟩ := by
  intro text
  have hroot : (⟨"/w"⟩ : Path).isAbsolute = true := by decide
  have hreports : reports ⟨"/w"⟩ text = [
      (⟨"a.ts"⟩, ⟨⟨"/w/a.ts"⟩, 1, 1, "E", "m"⟩), (⟨"./a.ts"⟩, ⟨⟨"/w/a.ts"⟩, 2, 1, "E", "m"⟩),
      (⟨".//a.ts"⟩, ⟨⟨"/w/a.ts"⟩, 3, 1, "E", "m"⟩), (⟨"/w/a.ts"⟩, ⟨⟨"/w/a.ts"⟩, 4, 1, "E", "m"⟩),
      (⟨"b/../a.ts"⟩, ⟨⟨"/w/b/../a.ts"⟩, 5, 1, "E", "m"⟩)] := by decide +kernel
  obtain ⟨-, -, hgroups, -⟩ := groupByFile_ofCompilerText ⟨"/w"⟩ hroot text
  have hfirst : ((⟨"a.ts"⟩, ⟨⟨"/w/a.ts"⟩, 1, 1, "E", "m"⟩) : Path × Diagnostic)
      ∈ reports ⟨"/w"⟩ text := by
    rw [hreports]
    exact List.mem_cons_self
  refine ⟨hroot, fun report hreport => ?_⟩
  rw [hgroups report hreport _ hfirst]
  rw [hreports] at hreport
  simp only [List.mem_cons, List.not_mem_nil, or_false] at hreport
  rcases hreport with rfl | rfl | rfl | rfl | rfl <;> decide

end SourceRepair.Diagnostic
