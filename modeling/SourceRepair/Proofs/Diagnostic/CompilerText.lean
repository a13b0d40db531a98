import SourceRepair.Diagnostic.CompilerText
import SourceRepair.Proofs.Path.Resolve
import SourceRepair.Proofs.Text.Digits
import SourceRepair.Proofs.Text.Trimming

/-!
# One-line forms read back

A compiler's output that shows diagnostics in their one-line forms, among any lines of another kind,
is read as just these diagnostics (`ofCompilerText_output`).

A line is split after the shortest path that a tail can follow. A tail starts with two positions in
parentheses (`OpensTail`). If one started within the path it would end there too, since the
parenthesis that comes behind the path stands nowhere in it but in front. So a path without such a
start is passed as a whole, whatever parentheses it has, and what comes behind it is read as it was
written: the positions up to the marks that end them, the code up to the white space behind its
colon, and the rest as the message.
-/

namespace SourceRepair.Diagnostic

open CharClass (isDigit isWhite)

/-! ## Pieces of a line -/

/-- The text starts with two positions, as what follows a path does. -/
def OpensTail (text : List Char) : Prop :=
  ∃ line column rest, line ≠ [] ∧ column ≠ [] ∧ (∀ c ∈ line, isDigit c = true) ∧
    (∀ c ∈ column, isDigit c = true) ∧
    text = '(' :: line ++ ',' :: column ++ "): error ".toList ++ rest

theorem dropLiteral?_append (part rest : List Char) :
    dropLiteral? part (part ++ rest) = some rest := by
  rw [dropLiteral?, if_pos (List.isPrefixOf_iff_prefix.mpr (List.prefix_append part rest)),
    List.drop_left]

theorem eq_append_of_dropLiteral? {part text rest : List Char}
    (h : dropLiteral? part text = some rest) : text = part ++ rest := by
  unfold dropLiteral? at h
  split at h
  · rename_i hprefix
    obtain ⟨rest', rfl⟩ := List.isPrefixOf_iff_prefix.mp hprefix
    rw [List.drop_left] at h
    rw [Option.some.inj h]
  · exact absurd h (by simp)

/-- Digits are taken up to the first character that is none. -/
theorem takeDigits?_append {digits rest : List Char} {c : Char} (hne : digits ≠ [])
    (hdigits : ∀ d ∈ digits, isDigit d = true) (hc : isDigit c = false) :
    takeDigits? (digits ++ c :: rest) = some (digits, c :: rest) := by
  obtain ⟨htake, hdrop⟩ := Text.takeWhile_append_cons hdigits hc rest
  rw [takeDigits?, htake, hdrop]
  cases digits with
  | nil => exact absurd rfl hne
  | cons d more => rfl

theorem eq_append_of_takeDigits? {text digits rest : List Char}
    (h : takeDigits? text = some (digits, rest)) :
    digits ≠ [] ∧ (∀ c ∈ digits, isDigit c = true) ∧ text = digits ++ rest := by
  unfold takeDigits? at h
  split at h
  · exact absurd h (by simp)
  · rename_i hne
    obtain ⟨rfl, rfl⟩ := Prod.mk.inj (Option.some.inj h)
    exact ⟨hne, fun c hc => List.mem_takeWhile_imp hc, List.takeWhile_append_dropWhile.symm⟩

/-- A code is taken up to the colon in front of the first white space. -/
theorem takeCode?_append {code : List Char} (message : List Char) (hne : code ≠ [])
    (hcode : ∀ c ∈ code, isWhite c = false) :
    takeCode? (code ++ ": ".toList ++ message) = some (code, message) := by
  have hrun : ∀ c ∈ code ++ [':'], (!isWhite c) = true := by
    intro c hc
    rcases List.mem_append.mp hc with hc | hc
    · simp [hcode c hc]
    · rw [List.mem_singleton.mp hc]
      decide
  have htext : code ++ ": ".toList ++ message = (code ++ [':']) ++ ' ' :: message := by simp
  obtain ⟨htake, hdrop⟩ :=
    Text.takeWhile_append_cons hrun (show (!isWhite ' ') = false by decide) message
  rw [htext, takeCode?, htake, hdrop, List.getLast?_concat, List.dropLast_concat]
  cases code with
  | nil => exact absurd rfl hne
  | cons c more => rfl

/-- A tail starts with two positions. -/
theorem opensTail_of_ofText? {text : List Char} {tail : Tail}
    (h : Tail.ofText? text = some tail) : OpensTail text := by
  simp only [Tail.ofText?, Option.bind_eq_bind, Option.bind_eq_some_iff] at h
  obtain ⟨afterParen, hparen, ⟨line, afterLine⟩, hline, afterComma, hcomma,
    ⟨column, afterColumn⟩, hcolumn, rest, herror, -⟩ := h
  obtain ⟨hlineNe, hlineDigits, rfl⟩ := eq_append_of_takeDigits? hline
  obtain ⟨hcolumnNe, hcolumnDigits, rfl⟩ := eq_append_of_takeDigits? hcolumn
  obtain rfl := eq_append_of_dropLiteral? hparen
  obtain rfl := eq_append_of_dropLiteral? hcomma
  obtain rfl := eq_append_of_dropLiteral? herror
  exact ⟨line, column, rest, hlineNe, hcolumnNe, hlineDigits, hcolumnDigits, by simp⟩

/-- A tail is read as it was written. -/
theorem Tail.ofText?_eq_some {line column code : List Char} (message : List Char)
    (hline : line ≠ [] ∧ ∀ c ∈ line, isDigit c = true)
    (hcolumn : column ≠ [] ∧ ∀ c ∈ column, isDigit c = true)
    (hcode : code ≠ [] ∧ ∀ c ∈ code, isWhite c = false) :
    Tail.ofText? ('(' :: line ++ ',' :: column ++ "): error ".toList ++ code ++ ": ".toList
      ++ message) = some ⟨line, column, code, message⟩ := by
  have htext : '(' :: line ++ ',' :: column ++ "): error ".toList ++ code ++ ": ".toList ++ message
      = ['('] ++ (line ++ ',' :: (column ++ ')' :: (": error ".toList
        ++ (code ++ ": ".toList ++ message)))) := by simp
  have herror : dropLiteral? "): error ".toList
      (')' :: (": error ".toList ++ (code ++ ": ".toList ++ message)))
        = some (code ++ ": ".toList ++ message) :=
    dropLiteral?_append "): error ".toList _
  rw [htext, Tail.ofText?]
  simp only [Option.bind_eq_bind, dropLiteral?_append, Option.bind_some,
    takeDigits?_append hline.1 hline.2 (show isDigit ',' = false by decide)]
  rw [show ',' :: (column ++ ')' :: (": error ".toList ++ (code ++ ": ".toList ++ message)))
    = [','] ++ (column ++ ')' :: (": error ".toList ++ (code ++ ": ".toList ++ message))) from rfl]
  simp only [dropLiteral?_append, Option.bind_some,
    takeDigits?_append hcolumn.1 hcolumn.2 (show isDigit ')' = false by decide), herror,
    takeCode?_append message hcode.1 hcode.2]
  rfl

/-! ## The path -/

/-- In front of a tail no other one starts within a text that has no start of one in it. -/
theorem ofText?_append_eq_none {front tail : List Char} (hne : front ≠ [])
    (hfront : ¬ OpensTail front) (htail : tail.head? = some '(') :
    Tail.ofText? (front ++ tail) = none := by
  rw [Option.eq_none_iff_forall_not_mem]
  intro found hfound
  obtain ⟨line, column, rest, hlineNe, hcolumnNe, hline, hcolumn, htext⟩ :=
    opensTail_of_ofText? hfound
  rcases List.append_eq_append_iff.mp htext with ⟨back, hopening, htail'⟩ | ⟨back, hback, -⟩
  · cases back with
    | nil =>
      rw [List.append_nil] at hopening
      exact hfront ⟨line, column, [], hlineNe, hcolumnNe, hline, hcolumn,
        by rw [List.append_nil, hopening]⟩
    | cons c back =>
      -- the positions would hold the parenthesis that the tail starts with
      obtain rfl : c = '(' := by
        rw [htail'] at htail
        exact Option.some.inj htail
      cases front with
      | nil => exact hne rfl
      | cons first front =>
        have hmem : '(' ∈ line ++ ',' :: column ++ "): error ".toList := by
          have hopening : line ++ ',' :: column ++ "): error ".toList = front ++ '(' :: back :=
            (List.cons.inj hopening).2
          rw [hopening]
          exact List.mem_append_right _ List.mem_cons_self
        have hnone : ∀ digits : List Char, (∀ c ∈ digits, isDigit c = true) → '(' ∉ digits :=
          fun digits hdigits hparen => absurd (hdigits _ hparen) (by decide)
        simp [hnone line hline, hnone column hcolumn] at hmem
  · exact hfront ⟨line, column, back, hlineNe, hcolumnNe, hline, hcolumn, hback⟩

/-- A path in which no tail starts is passed as a whole. -/
theorem splitPath?_append {path tailText : List Char} {tail : Tail} (hne : path ≠ [])
    (hpath : ∀ back, back <:+ path → ¬ OpensTail back) (htail : tailText.head? = some '(')
    (hread : Tail.ofText? tailText = some tail) (passed : List Char) :
    splitPath? passed (path ++ tailText) = some (passed.reverse ++ path, tail) := by
  induction path generalizing passed with
  | nil => exact absurd rfl hne
  | cons c rest ih =>
    rw [List.cons_append, splitPath?]
    cases rest with
    | nil => rw [List.nil_append, hread, List.reverse_cons]
    | cons d more =>
      have hopens : ¬ OpensTail (d :: more) := hpath _ (List.suffix_cons c _)
      rw [ofText?_append_eq_none (List.cons_ne_nil d more) hopens htail]
      simp only
      rw [ih (List.cons_ne_nil d more) fun back hback =>
        hpath back (hback.trans (List.suffix_cons c _))]
      simp

/-- A line that is split has the mark of an error in it. -/
theorem infix_of_splitPath? {passed text : List Char} {split : List Char × Tail}
    (h : splitPath? passed text = some split) : "): error ".toList <:+: text := by
  induction text generalizing passed with
  | nil => exact absurd h (by simp [splitPath?])
  | cons c rest ih =>
    rw [splitPath?] at h
    split at h
    · rename_i tail htail
      obtain ⟨line, column, back, -, -, -, -, hrest⟩ := opensTail_of_ofText? htail
      exact ⟨c :: ('(' :: line ++ ',' :: column), back, by rw [hrest]; simp⟩
    · exact (ih h).trans (List.suffix_cons c rest).isInfix

/-! ## One line -/

/-- A diagnostic whose one-line form says where its parts end. -/
structure Displayable (d : Diagnostic) : Prop where
  file_isPlain : d.file.IsPlain
  file_lineFeed : '\n' ∉ d.file.spelling.toList
  /-- Nothing in the path looks like the positions behind it. -/
  file_position : ∀ back, back <:+ d.file.spelling.toList → ¬ OpensTail back
  line_lt : d.line < wordLimit
  column_lt : d.column < wordLimit
  code_ne : d.code ≠ ""
  code_white : ∀ c ∈ d.code.toList, isWhite c = false
  message_ne : d.message ≠ ""
  message_lineFeed : '\n' ∉ d.message.toList
  message_last : ∀ c ∈ d.message.toList.getLast?, isWhite c = false

/-- The digits of a position are digits. -/
theorem isDigit_of_mem_toDigits (n : Nat) :
    Nat.toDigits 10 n ≠ [] ∧ ∀ c ∈ Nat.toDigits 10 n, isDigit c = true :=
  ⟨Nat.toDigits_ne_nil, fun _ hc =>
    CharClass.isDigit_of_isDecimal (Text.isDecimal_of_mem_toDigits hc)⟩

/-- A position below the limit reads back. -/
theorem position?_toDigits {n : Nat} (h : n < wordLimit) :
    position? (Nat.toDigits 10 n) = some n := by
  have hall : (Nat.toDigits 10 n).all Text.isDecimal = true :=
    List.all_eq_true.mpr fun c hc => Text.isDecimal_of_mem_toDigits hc
  rw [position?, if_pos hall, Text.digitsValue_toDigits]
  exact if_pos h

/-- The one-line form, piece by piece. -/
theorem toList_display (d : Diagnostic) :
    d.display.toList = d.file.spelling.toList ++ ('(' :: Nat.toDigits 10 d.line
      ++ ',' :: Nat.toDigits 10 d.column ++ "): error ".toList ++ d.code.toList ++ ": ".toList
      ++ d.message.toList) := by
  simp [display, String.toList_append]

/-- A diagnostic is read back from its one-line form. -/
theorem ofLine?_display {d : Diagnostic} (h : d.Displayable) (root : Path) :
    ofLine? root d.display.toList = some d := by
  have hmessage : d.message.toList ≠ [] := by simpa using h.message_ne
  have hcode : d.code.toList ≠ [] := by simpa using h.code_ne
  have hpath : d.file.spelling.toList ≠ [] := by
    intro hnil
    have := h.file_isPlain.1
    rw [Path.isAbsolute, hnil] at this
    exact absurd this (by decide)
  have htrim : Text.trimEnd d.display.toList = d.display.toList := by
    refine Text.trimEnd_eq_self fun c hc => h.message_last c ?_
    rw [toList_display, ← List.append_assoc, List.getLast?_append_of_ne_nil _ hmessage] at hc
    exact hc
  have htail := Tail.ofText?_eq_some d.message.toList (isDigit_of_mem_toDigits d.line)
    (isDigit_of_mem_toDigits d.column) ⟨hcode, h.code_white⟩
  have hsplit := splitPath?_append hpath h.file_position (by rfl) htail []
  rw [← toList_display, List.reverse_nil, List.nil_append] at hsplit
  rw [ofLine?, htrim, hsplit]
  simp only [Option.bind_eq_bind, Option.bind_some, position?_toDigits h.line_lt,
    position?_toDigits h.column_lt, String.ofList_toList, h.file_isPlain.resolve_eq]
  rfl

/-- The one-line form is a line. -/
theorem lineFeed_not_mem_display {d : Diagnostic} (h : d.Displayable) :
    '\n' ∉ d.display.toList := by
  have hdigits : ∀ n, '\n' ∉ Nat.toDigits 10 n := fun n hmem =>
    absurd ((isDigit_of_mem_toDigits n).2 _ hmem) (by decide)
  have hcode : '\n' ∉ d.code.toList := fun hmem =>
    absurd (h.code_white _ hmem) (by decide)
  rw [toList_display]
  simp [h.file_lineFeed, hdigits, hcode, h.message_lineFeed]

/-- A line without the mark of an error reports nothing. -/
theorem ofLine?_eq_none {text : List Char} (h : ¬ "): error ".toList <:+: text) (root : Path) :
    ofLine? root text = none := by
  rw [Option.eq_none_iff_forall_not_mem]
  intro d hd
  simp only [ofLine?, Option.bind_eq_bind, Option.mem_def, Option.bind_eq_some_iff] at hd
  obtain ⟨split, hsplit, -⟩ := hd
  exact h ((infix_of_splitPath? hsplit).trans (Text.trimEnd_prefix text).isInfix)

/-- A carriage return at the end of a line does not matter. -/
theorem ofLine?_concat_return (root : Path) (text : List Char) :
    ofLine? root (text ++ ['\r']) = ofLine? root text := by
  rw [ofLine?, ofLine?, Text.trimEnd_concat (by decide)]

/-! ## Whole outputs -/

/-- A line of a compiler's output. -/
inductive OutputLine where
  /-- A diagnostic in its one-line form. -/
  | report (d : Diagnostic)
  | other (text : List Char)

namespace OutputLine

/-- What the line says. -/
def text : OutputLine → List Char
  | report d => d.display.toList
  | other text => text

/-- The diagnostic that the line reports. -/
def diagnostic? : OutputLine → Option Diagnostic
  | report d => some d
  | other _ => none

/-- The line can be told apart: a diagnostic can be displayed, and other text is a line without the
mark of an error. -/
def IsClear : OutputLine → Prop
  | report d => d.Displayable
  | other text => '\n' ∉ text ∧ ¬ "): error ".toList <:+: text

variable {line : OutputLine}

theorem IsClear.lineFeed_not_mem (h : line.IsClear) : '\n' ∉ line.text := by
  cases line with
  | report d => exact lineFeed_not_mem_display h
  | other text => exact h.1

theorem IsClear.ofLine?_text (h : line.IsClear) (root : Path) :
    ofLine? root line.text = line.diagnostic? := by
  cases line with
  | report d => exact ofLine?_display h root
  | other text => exact ofLine?_eq_none h.2 root

end OutputLine

/-- The text of an output, with its line ends. -/
def output (lines : List (OutputLine × Ending)) : String :=
  String.ofList (Line.render (lines.map fun line => ⟨line.1.text, line.2⟩))

/-- A line in front of an output is read for itself. -/
theorem ofCompilerText_line {text : List Char} (h : '\n' ∉ text) (root : Path)
    (rest : List Char) :
    ofCompilerText root (String.ofList (text ++ '\n' :: rest))
      = (ofLine? root text).toList ++ ofCompilerText root (String.ofList rest) := by
  obtain ⟨line, hlines, htext⟩ := Line.exists_ofText_append_lineFeed h rest
  have hline : ofLine? root line.text = ofLine? root text := by
    rcases htext with htext | htext
    · rw [htext]
    · rw [htext, ofLine?_concat_return]
  rw [ofCompilerText, ofCompilerText, String.toList_ofList, String.toList_ofList, hlines,
    List.filterMap_cons, hline]
  cases ofLine? root text <;> rfl

/-- An output of diagnostics in their one-line forms, among any lines without the mark of an error,
is read as these diagnostics in their order. Lines end in line feeds with or without carriage
returns; the last one may lack its end. -/
theorem ofCompilerText_output (root : Path) (lines : List (OutputLine × Ending))
    (hclear : ∀ line ∈ lines, line.1.IsClear)
    (hending : ∀ line ∈ lines.dropLast, line.2 ≠ .missing) :
    ofCompilerText root (output lines) = lines.filterMap fun line => line.1.diagnostic? := by
  induction lines with
  | nil => rfl
  | cons line more ih =>
    obtain ⟨line, ending⟩ := line
    obtain ⟨hline, hmore⟩ := List.forall_mem_cons.mp hclear
    have hrest : ∀ last ∈ more.dropLast, last.2 ≠ .missing := fun last hlast => hending last (by
      cases more with
      | nil => exact absurd hlast List.not_mem_nil
      | cons next more => exact List.mem_cons_of_mem _ hlast)
    have hfirst : (ofLine? root line.text).toList ++ ofCompilerText root (output more)
        = ((line, ending) :: more).filterMap fun line => line.1.diagnostic? := by
      rw [hline.ofLine?_text root, ih hmore hrest, List.filterMap_cons]
      cases line.diagnostic? <;> rfl
    rw [← hfirst]
    cases ending with
    | missing =>
      obtain rfl : more = [] := by
        cases more with
        | nil => rfl
        | cons next more => exact absurd rfl (hending (line, .missing) List.mem_cons_self)
      have hempty : ofCompilerText root (output []) = [] := rfl
      have htext : output [(line, .missing)] = String.ofList line.text := by
        simp [output, Ending.toList]
      rw [hempty, List.append_nil, htext, ofCompilerText, String.toList_ofList]
      by_cases hnil : line.text = []
      · rw [hnil]
        rfl
      · rw [Line.ofText_of_not_mem hline.lineFeed_not_mem hnil, List.filterMap_cons]
        cases ofLine? root line.text <;> rfl
    | lineFeed =>
      have htext : output ((line, .lineFeed) :: more)
          = String.ofList (line.text ++ '\n' :: (output more).toList) := by
        simp [output, Ending.toList]
      rw [htext, ofCompilerText_line hline.lineFeed_not_mem, String.ofList_toList]
    | carriageReturnLineFeed =>
      have htext : output ((line, .carriageReturnLineFeed) :: more)
          = String.ofList ((line.text ++ ['\r']) ++ '\n' :: (output more).toList) := by
        simp [output, Ending.toList]
      have hreturn : '\n' ∉ line.text ++ ['\r'] := by
        simp [hline.lineFeed_not_mem]
      rw [htext, ofCompilerText_line hreturn, ofLine?_concat_return, String.ofList_toList]

/-- Parentheses in a path, a colon at the end of a code, and a message that looks like another
diagnostic do not mislead the reader. -/
theorem ofCompilerText_output_parentheses :
    ofCompilerText ⟨"/root"⟩ ("a.ts(1,2): warning\n" ++
        "/p(1,2)/a (3).ts(4,18446744073709551615): error E:: /b(5,6): error F: g\r\n")
      = [⟨⟨"/p(1,2)/a (3).ts"⟩, 4, 18446744073709551615, "E:", "/b(5,6): error F: g"⟩] := by
  have hpositions : ∀ back, back <:+ "/p(1,2)/a (3).ts".toList → ¬ OpensTail back := by
    rintro back hback ⟨line, column, rest, -, -, -, -, rfl⟩
    have hmark : "): error ".toList <:+: "/p(1,2)/a (3).ts".toList :=
      List.IsInfix.trans ⟨'(' :: line ++ ',' :: column, rest, rfl⟩ hback.isInfix
    exact absurd hmark (by decide)
  have hdisplayable : Displayable
      ⟨⟨"/p(1,2)/a (3).ts"⟩, 4, 18446744073709551615, "E:", "/b(5,6): error F: g"⟩ := {
    file_isPlain := ⟨by decide, .inr (by decide)⟩
    file_lineFeed := by decide
    file_position := hpositions
    line_lt := by decide
    column_lt := by decide
    code_ne := by decide
    code_white := by simp [isWhite]
    message_ne := by decide
    message_lineFeed := by decide
    message_last := by simp [isWhite] }
  exact ofCompilerText_output ⟨"/root"⟩
    [(.other "a.ts(1,2): warning".toList, .lineFeed),
      (.report ⟨⟨"/p(1,2)/a (3).ts"⟩, 4, 18446744073709551615, "E:", "/b(5,6): error F: g"⟩,
        .carriageReturnLineFeed)]
    (List.forall_mem_cons.mpr ⟨⟨by decide, by decide⟩, List.forall_mem_cons.mpr
      ⟨hdisplayable, by simp⟩⟩) (by simp)

end SourceRepair.Diagnostic
