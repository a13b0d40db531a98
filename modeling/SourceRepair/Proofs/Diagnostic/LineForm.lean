import SourceRepair.Proofs.Diagnostic.LineGrammar
import SourceRepair.Proofs.Pattern.Selection

/-!
# The form of a line as a pattern

`lineForm` writes the form of a diagnostic's line down as a pattern, whose groups are the parts of
the diagnostic and whose path is a lazy repetition. The line reader finds the parts that the groups
of the pattern's match hold (`findFrom_lineForm`), and so an output can be read with the pattern
alone (`ofCompilerText_eq_lineForm`).

Behind the path no choice is left: from a given place there is one way at most to read the rest of a
line (`mem_ends_tailForm_iff`), however many characters each of its repetitions would take. The path
is where reader and pattern both go on by one character at a time for as long as no tail follows.
-/

namespace SourceRepair.Diagnostic

open CharClass (isDigit)
open Pattern

variable {before text rest word : List Char} {groups : Captures} {tail : Tail}

/-- The positions, the code and the message, up to the end of the text. -/
def tailForm : Pattern :=
  sequence [
    lit "(", group "line" (oneOrMore (one isDigit)), lit ",",
    group "column" (oneOrMore (one isDigit)), lit "): error ", group "code" (oneOrMore visible),
    lit ": ", group "message" (many (noneOf "\n")), textEnd]

/-- A path, of as few characters as possible, and a tail:
`^(?P<path>.+?)\((?P<line>\d+),(?P<column>\d+)\): error (?P<code>\S+): (?P<message>.*)$`. -/
def lineForm : Pattern :=
  seq textStart (seq (group "path" (seq (noneOf "\n") (few (noneOf "\n")))) tailForm)

/-- What the groups of the pattern hold of a tail, the last one first. -/
def Tail.captures (tail : Tail) : Captures :=
  [("message", tail.message), ("code", tail.code), ("column", tail.column), ("line", tail.line)]

/-! ## Tails -/

theorem reads_many_noneOf_iff : (many (noneOf "\n")).Reads before word rest groups ↔
    '\n' ∉ word ∧ groups = [] := by
  have hmem : (∀ c ∈ word, (!"\n".toList.contains c) = true) ↔ '\n' ∉ word := by
    simpa using List.forall_mem_ne'
  rw [noneOf, reads_many_one_iff, hmem]

/-- The pattern reads what is written of a tail, at the end of a text. -/
theorem reads_tailForm (hproper : tail.Proper) (hmessage : '\n' ∉ tail.message) :
    tailForm.Reads before tail.toList [] tail.captures := by
  obtain ⟨line, column, code, message⟩ := tail
  have hword : Tail.toList ⟨line, column, code, message⟩ = "(".toList ++ (line ++ (",".toList
      ++ (column ++ ("): error ".toList ++ (code ++ (": ".toList ++ (message ++ []))))))) := by
    simp [Tail.toList]
  have hline : ∀ {before rest}, (oneOrMore (one isDigit)).Reads before line rest [] :=
    reads_oneOrMore_one_iff.mpr ⟨hproper.line.1, hproper.line.2, rfl⟩
  have hcolumn : ∀ {before rest}, (oneOrMore (one isDigit)).Reads before column rest [] :=
    reads_oneOrMore_one_iff.mpr ⟨hproper.column.1, hproper.column.2, rfl⟩
  have hcode : ∀ {before rest}, (oneOrMore visible).Reads before code rest [] :=
    reads_oneOrMore_one_iff.mpr ⟨hproper.code.1, fun c hc => by simp [hproper.code.2 c hc], rfl⟩
  have hmessage : ∀ {before rest}, (many (noneOf "\n")).Reads before message rest [] :=
    reads_many_noneOf_iff.mpr ⟨hmessage, rfl⟩
  have hend : ∀ {before}, (seq textEnd empty).Reads before [] [] [] :=
    ⟨[], [], [], [], rfl, rfl, ⟨rfl, rfl, rfl⟩, rfl, rfl⟩
  rw [hword]
  show tailForm.Reads before _ []
    (((([] ++ [("message", message)]) ++ [("code", code)]) ++ [("column", column)])
      ++ [("line", line)])
  exact reads_lit_seq <| reads_group_seq hline <| reads_lit_seq <| reads_group_seq hcolumn <|
    reads_lit_seq <| reads_group_seq hcode <| reads_lit_seq <| reads_group_seq hmessage hend

/-- The pattern reads nothing else, and nothing where the text goes on. -/
theorem exists_tail_of_reads (h : tailForm.Reads before word rest groups) :
    rest = [] ∧ ∃ tail : Tail, tail.Proper ∧ word = tail.toList ∧ groups = tail.captures := by
  obtain ⟨_, _, rfl, hparen, h⟩ := h.seq_of_groupNames rfl
  obtain ⟨line, _, _, rfl, rfl, -, hline, h⟩ := h.group_seq rfl (by decide)
  obtain ⟨_, _, rfl, hcomma, h⟩ := h.seq_of_groupNames rfl
  obtain ⟨column, _, _, rfl, rfl, -, hcolumn, h⟩ := h.group_seq rfl (by decide)
  obtain ⟨_, _, rfl, herror, h⟩ := h.seq_of_groupNames rfl
  obtain ⟨code, _, _, rfl, rfl, -, hcode, h⟩ := h.group_seq rfl (by decide)
  obtain ⟨_, _, rfl, hcolon, h⟩ := h.seq_of_groupNames rfl
  obtain ⟨message, _, _, rfl, rfl, -, -, h⟩ := h.group_seq rfl (by decide)
  have hend := h.holds_of_assertion
  obtain ⟨rfl, rfl⟩ := h.of_assertion
  obtain ⟨rfl, -⟩ := reads_lit.mp hparen
  obtain ⟨rfl, -⟩ := reads_lit.mp hcomma
  obtain ⟨rfl, -⟩ := reads_lit.mp herror
  obtain ⟨rfl, -⟩ := reads_lit.mp hcolon
  obtain ⟨hlineNe, hlineDigits, -⟩ := reads_oneOrMore_one_iff.mp hline
  obtain ⟨hcolumnNe, hcolumnDigits, -⟩ := reads_oneOrMore_one_iff.mp hcolumn
  obtain ⟨hcodeNe, hcodeVisible, -⟩ := reads_oneOrMore_one_iff.mp hcode
  refine ⟨List.isEmpty_iff.mp hend, ⟨line, column, code, message⟩, ?_, by simp [Tail.toList], rfl⟩
  exact ⟨⟨hlineNe, hlineDigits⟩, ⟨hcolumnNe, hcolumnDigits⟩, hcodeNe,
    fun c hc => by simpa using hcodeVisible c hc⟩

/-- Behind a path the rest of a line is read in one way, if it is a tail, and else in none. -/
theorem mem_ends_tailForm_iff (htext : '\n' ∉ text) {d : Cursor} :
    d ∈ tailForm.ends ⟨before, text, groups⟩ ↔ ∃ tail, Tail.ofText? text = some tail ∧
      d = ⟨text.reverse ++ before, [], tail.captures ++ groups⟩ := by
  rw [mem_ends_iff]
  constructor
  · rintro ⟨_, _, ⟨hrest, hbefore, hgroups⟩, hreads⟩
    obtain ⟨hnil, tail, hproper, rfl, rfl⟩ := exists_tail_of_reads hreads
    obtain ⟨before', rest', groups'⟩ := d
    subst hnil
    rw [List.append_nil] at hrest
    refine ⟨tail, Tail.ofText?_eq_some_iff.mpr ⟨hproper, hrest⟩, ?_⟩
    rw [Cursor.mk.injEq]
    exact ⟨hbefore.trans (congrArg (List.reverse · ++ before) hrest.symm), rfl, hgroups⟩
  · rintro ⟨tail, htail, rfl⟩
    obtain ⟨hproper, rfl⟩ := Tail.ofText?_eq_some_iff.mp htail
    have hmessage : '\n' ∉ tail.message := fun hmem => htext (List.mem_append_right _ hmem)
    exact ⟨tail.toList, tail.captures, ⟨(List.append_nil _).symm, rfl, rfl⟩,
      reads_tailForm hproper hmessage⟩

/-- Behind a path one place is asked what follows, if there is a tail, and else none. -/
theorem first?_tailForm (htext : '\n' ∉ text) (k : Cursor → Option Match) :
    tailForm.first? ⟨before, text, groups⟩ k = (Tail.ofText? text).bind fun tail =>
      k ⟨text.reverse ++ before, [], tail.captures ++ groups⟩ := by
  have hends : ∀ d, d ∈ tailForm.ends ⟨before, text, groups⟩ ↔ _ :=
    fun d => mem_ends_tailForm_iff htext
  rw [first?_eq]
  generalize tailForm.ends ⟨before, text, groups⟩ = places at hends
  cases htail : Tail.ofText? text with
  | none =>
    have hnil : places = [] :=
      List.eq_nil_iff_forall_not_mem.mpr fun d hd => by simpa [htail] using (hends d).mp hd
    rw [hnil]
    rfl
  | some tail =>
    have hall : places = List.replicate places.length
        ⟨text.reverse ++ before, [], tail.captures ++ groups⟩ :=
      List.eq_replicate_iff.mpr ⟨rfl, fun d hd => by simpa [htail] using (hends d).mp hd⟩
    have hne : places.length ≠ 0 :=
      (List.length_pos_of_mem ((hends _).mpr ⟨tail, htail, rfl⟩)).ne'
    rw [hall, List.findSome?_replicate, if_neg hne]
    rfl

/-! ## The path -/

/-- The match of a line that is split so. -/
def matchOf (text path : List Char) (tail : Tail) : Match :=
  ⟨[], text, [], tail.captures ++ [("path", path)]⟩

/-- What the pattern makes of a text where its path has got to a place. -/
def afterPath (text : List Char) (d : Cursor) : Option Match :=
  tailForm.first? (d.capture "path" ⟨[], text, []⟩) fun stop =>
    some (Match.between ⟨[], text, []⟩ stop)

/-- A match with this path is made where a tail follows. -/
theorem afterPath_eq (hrest : '\n' ∉ rest) (htext : text = before.reverse ++ rest) :
    afterPath text ⟨before, rest, []⟩
      = (Tail.ofText? rest).map fun tail => matchOf text before.reverse tail := by
  have hpath : Cursor.upTo ⟨[], text, []⟩ ⟨before, rest, []⟩ = before.reverse := by
    simp [Cursor.upTo, htext]
  have hwhole : ∀ groups, Cursor.upTo ⟨[], text, []⟩ ⟨rest.reverse ++ before, [], groups⟩
      = text := by simp [Cursor.upTo]
  rw [afterPath, Cursor.capture, hpath, first?_tailForm hrest]
  cases Tail.ofText? rest with
  | none => rfl
  | some tail => simp [Match.between, hwhole, matchOf]

/-- Where a path may end, the pattern tries a tail and only then takes one more character. -/
theorem firstOfRun_afterPath {c : Char} (hrest : '\n' ∉ rest)
    (htext : text = before.reverse ++ c :: rest) :
    firstOfRun true (fun c => !"\n".toList.contains c) [] (afterPath text) (c :: before) rest
      = (splitPath? before (c :: rest)).map fun (path, tail) => matchOf text path tail := by
  induction rest generalizing before c with
  | nil =>
    rw [firstOfRun, afterPath_eq hrest (by simp [htext]), splitPath?]
    cases Tail.ofText? [] <;> rfl
  | cons d rest ih =>
    obtain ⟨hd, hmore⟩ : '\n' ≠ d ∧ '\n' ∉ rest := by simpa using hrest
    have haccepts : (!"\n".toList.contains d) = true := by simp [Ne.symm hd]
    rw [firstOfRun, if_pos haccepts, afterPath_eq hrest (by simp [htext]),
      ih hmore (by simp [htext])]
    conv_rhs => rw [splitPath?]
    cases Tail.ofText? (d :: rest) <;> rfl

/-- At the start of a text without line feeds the pattern matches what the reader splits off. -/
theorem matchAt?_lineForm (htext : '\n' ∉ text) : lineForm.matchAt? ⟨[], text, []⟩
    = (splitPath? [] text).map fun (path, tail) => matchOf text path tail := by
  cases text with
  | nil => rfl
  | cons c rest =>
    obtain ⟨hc, hrest⟩ : '\n' ≠ c ∧ '\n' ∉ rest := by simpa using htext
    have haccepts : (!"\n".toList.contains c) = true := by simp [Ne.symm hc]
    have hwhole : c :: rest = ([] : List Char).reverse ++ c :: rest := rfl
    have hpath : lineForm.matchAt? ⟨[], c :: rest, []⟩
        = if (!"\n".toList.contains c) = true then
            firstOfRun true (fun c => !"\n".toList.contains c) [] (afterPath (c :: rest)) [c] rest
          else none := rfl
    rw [hpath, if_pos haccepts, firstOfRun_afterPath hrest hwhole]

/-- The pattern finds in a text without line feeds what the reader splits off. -/
theorem findFrom_lineForm (htext : '\n' ∉ text) : lineForm.findFrom [] text
    = (splitPath? [] text).map fun (path, tail) => matchOf text path tail := by
  rw [lineForm, findFrom_textStart, ← lineForm, matchAt?_lineForm htext]

/-! ## Lines and outputs -/

/-- The diagnostic that the groups of a match hold, if its positions are numbers. -/
def ofMatch? (root : Path) (m : Match) : Option Diagnostic := do
  let line ← position? (m.group "line")
  let column ← position? (m.group "column")
  return {
    file := root.resolve ⟨String.ofList (m.group "path")⟩
    line := line
    column := column
    code := String.ofList (m.group "code")
    message := String.ofList (m.group "message") }

/-- A line is read as the pattern reads it, once it is trimmed. -/
theorem ofLine?_eq_lineForm (root : Path) {line : List Char} (hline : '\n' ∉ line) :
    ofLine? root line = (lineForm.findFrom [] (Text.trimEnd line)).bind (ofMatch? root) := by
  rw [findFrom_lineForm (mt ((Text.trimEnd_prefix line).subset ·) hline), ofLine?]
  cases splitPath? [] (Text.trimEnd line) <;> rfl

/-- An output is read line by line with the pattern. -/
theorem ofCompilerText_eq_lineForm (root : Path) (text : String) :
    ofCompilerText root text = (Line.ofText text.toList).filterMap fun line =>
      (lineForm.findFrom [] (Text.trimEnd line.text)).bind (ofMatch? root) := by
  rw [ofCompilerText]
  refine List.filterMap_congr fun line hline => ?_
  exact ofLine?_eq_lineForm root (Line.lineFeed_not_mem_of_mem_ofText _ line hline)

end SourceRepair.Diagnostic
