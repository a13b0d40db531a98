import SourceRepair.Compiler.Extractor
import SourceRepair.Proofs.Diagnostic.CompilerText

/-!
# What a line of a compiler's output reports

A line may be read as a diagnostic in several ways (`Splits`): its message may look like a
diagnostic itself, and so may its path. The reader takes the way with the shortest path, of which
there is only one (`SplitsFirst.unique`), and then asks for two positions that are numbers. A line
that cannot be read in any way, or whose first way has a position that is no number, reports
nothing; no later way is tried then.

An output is read line by line (`ofCompilerText_grammar`). Only line feeds separate lines: a
carriage return in a line is part of it, and at its end is trimmed off like any white space.
-/

namespace SourceRepair.Diagnostic

open CharClass (isDigit isWhite)

variable {root : Path} {text path path' digits : List Char} {tail tail' : Tail}

/-! ## The grammar -/

/-- The text of a tail. -/
def Tail.toList (tail : Tail) : List Char :=
  '(' :: tail.line ++ ',' :: tail.column ++ "): error ".toList ++ tail.code ++ ": ".toList
    ++ tail.message

/-- The positions are rows of digits, and the code is a word; the message may be anything. -/
structure Tail.Proper (tail : Tail) : Prop where
  line : tail.line ≠ [] ∧ ∀ c ∈ tail.line, isDigit c = true
  column : tail.column ≠ [] ∧ ∀ c ∈ tail.column, isDigit c = true
  code : tail.code ≠ [] ∧ ∀ c ∈ tail.code, isWhite c = false

/-- The text can be read as a path and a tail behind it. -/
structure Splits (text path : List Char) (tail : Tail) : Prop where
  path_ne : path ≠ []
  proper : tail.Proper
  text_eq : text = path ++ tail.toList

/-- The text can be read so, and in no way with a shorter path. -/
structure SplitsFirst (text path : List Char) (tail : Tail) : Prop
    extends Splits text path tail where
  shortest : ∀ path' tail', Splits text path' tail' → path.length ≤ path'.length

/-- The digits are ASCII digits, and what they write is a 64-bit word. -/
structure WritesPosition (digits : List Char) (n : Nat) : Prop where
  ascii : ∀ c ∈ digits, Text.isDecimal c = true
  value : Text.digitsValue 10 digits = n
  lt : n < 2 ^ 64

/-- The text reports the diagnostic: its first split shows the parts, the path as seen from
`root`. -/
def Reports (root : Path) (text : List Char) (d : Diagnostic) : Prop :=
  ∃ path tail, SplitsFirst text path tail ∧
    d.file = root.resolve ⟨String.ofList path⟩ ∧
    WritesPosition tail.line d.line ∧ WritesPosition tail.column d.column ∧
    d.code = String.ofList tail.code ∧ d.message = String.ofList tail.message

/-! ## Tails -/

/-- A code is followed by the colon and the blank that end it. -/
theorem eq_append_of_takeCode? {code message : List Char}
    (h : takeCode? text = some (code, message)) :
    (code ≠ [] ∧ ∀ c ∈ code, isWhite c = false) ∧ text = code ++ ": ".toList ++ message := by
  unfold takeCode? at h
  simp only at h
  split at h
  · rename_i c code' message' hlast hfront hrest
    obtain ⟨rfl, rfl⟩ := Prod.mk.inj (Option.some.inj h)
    have hrun : text.takeWhile (!isWhite ·) = (c :: code') ++ [':'] := by
      rw [← hfront]
      exact (List.dropLast_append_getLast? ':' hlast).symm
    refine ⟨⟨List.cons_ne_nil c code', fun d hd => ?_⟩, ?_⟩
    · have hmem : d ∈ text.takeWhile (!isWhite ·) := hrun ▸ List.mem_append_left _ hd
      simpa using List.mem_takeWhile_imp hmem
    · rw [← List.takeWhile_append_dropWhile (p := (!isWhite ·)) (l := text), hrun, hrest]
      simp
  · exact absurd h (by simp)

/-- What is read as a tail is the text of one. -/
theorem Tail.ofText?_eq_some_iff : Tail.ofText? text = some tail ↔
    tail.Proper ∧ text = tail.toList := by
  constructor
  · intro h
    simp only [Tail.ofText?, Option.bind_eq_bind, Option.bind_eq_some_iff] at h
    obtain ⟨afterParen, hparen, ⟨line, afterLine⟩, hline, afterComma, hcomma,
      ⟨column, afterColumn⟩, hcolumn, rest, herror, ⟨code, message⟩, hcode, htail⟩ := h
    obtain rfl := Option.some.inj htail
    obtain ⟨hlineNe, hlineDigits, rfl⟩ := eq_append_of_takeDigits? hline
    obtain ⟨hcolumnNe, hcolumnDigits, rfl⟩ := eq_append_of_takeDigits? hcolumn
    obtain ⟨hcodeProper, rfl⟩ := eq_append_of_takeCode? hcode
    obtain rfl := eq_append_of_dropLiteral? hparen
    obtain rfl := eq_append_of_dropLiteral? hcomma
    obtain rfl := eq_append_of_dropLiteral? herror
    exact ⟨⟨⟨hlineNe, hlineDigits⟩, ⟨hcolumnNe, hcolumnDigits⟩, hcodeProper⟩,
      by simp [Tail.toList]⟩
  · rintro ⟨hproper, rfl⟩
    exact Tail.ofText?_eq_some tail.message hproper.line hproper.column hproper.code

/-! ## The path -/

/-- A split either ends its path with the first character or goes on with a split of the rest. -/
theorem splits_cons_iff {c : Char} {rest : List Char} :
    Splits (c :: rest) path tail ↔ (path = [c] ∧ Tail.ofText? rest = some tail) ∨
      ∃ more, path = c :: more ∧ Splits rest more tail := by
  rw [Tail.ofText?_eq_some_iff]
  constructor
  · rintro ⟨hne, hproper, htext⟩
    cases path with
    | nil => exact absurd rfl hne
    | cons d more =>
      obtain ⟨rfl, hrest⟩ := List.cons.inj htext
      by_cases hmore : more = []
      · subst hmore
        exact .inl ⟨rfl, hproper, hrest⟩
      · exact .inr ⟨more, rfl, hmore, hproper, hrest⟩
  · rintro (⟨rfl, hproper, rfl⟩ | ⟨more, rfl, hsplit⟩)
    · exact ⟨List.cons_ne_nil c [], hproper, rfl⟩
    · exact ⟨List.cons_ne_nil c more, hsplit.proper, by rw [hsplit.text_eq, List.cons_append]⟩

/-- A text is split in one way at most if the length of the path is known. -/
theorem Splits.eq_of_length_eq (h : Splits text path tail) (h' : Splits text path' tail')
    (hlength : path.length = path'.length) : path = path' ∧ tail = tail' := by
  obtain ⟨rfl, htail⟩ := List.append_inj (h.text_eq.symm.trans h'.text_eq) hlength
  have hread := Tail.ofText?_eq_some_iff.mpr ⟨h.proper, rfl⟩
  have hread' := Tail.ofText?_eq_some_iff.mpr ⟨h'.proper, htail⟩
  exact ⟨rfl, Option.some.inj (hread.symm.trans hread')⟩

/-- The first split is one definite split. -/
theorem SplitsFirst.unique (h : SplitsFirst text path tail) (h' : SplitsFirst text path' tail') :
    path = path' ∧ tail = tail' :=
  h.toSplits.eq_of_length_eq h'.toSplits
    (Nat.le_antisymm (h.shortest path' tail' h'.toSplits) (h'.shortest path tail h.toSplits))

/-- What the reader splits off is the first split, behind what has been passed. -/
theorem splitsFirst_of_splitPath? {passed found : List Char}
    (h : splitPath? passed text = some (found, tail)) :
    ∃ path, found = passed.reverse ++ path ∧ SplitsFirst text path tail := by
  induction text generalizing passed with
  | nil => exact absurd h (by simp [splitPath?])
  | cons c rest ih =>
    rw [splitPath?] at h
    split at h
    · rename_i tail' htail
      obtain ⟨rfl, rfl⟩ := Prod.mk.inj (Option.some.inj h)
      refine ⟨[c], by simp, splits_cons_iff.mpr (.inl ⟨rfl, htail⟩), fun path' tail'' hsplit => ?_⟩
      exact List.length_pos_iff.mpr hsplit.path_ne
    · rename_i hnone
      obtain ⟨path, rfl, hfirst⟩ := ih h
      refine ⟨c :: path, by simp,
        splits_cons_iff.mpr (.inr ⟨path, rfl, hfirst.toSplits⟩), fun path' tail' hsplit => ?_⟩
      -- no path ends at the first character, so every one is longer than one of the rest
      rcases splits_cons_iff.mp hsplit with ⟨-, htail⟩ | ⟨more, rfl, hmore⟩
      · rw [hnone] at htail
        exact absurd htail (by simp)
      · exact Nat.succ_le_succ (hfirst.shortest more tail' hmore)

/-- Where the reader finds nothing to split off, there is no split. -/
theorem not_splits_of_splitPath? {passed : List Char} (h : splitPath? passed text = none) :
    ¬ Splits text path tail := by
  induction text generalizing passed path with
  | nil =>
    intro hsplit
    exact hsplit.path_ne (List.append_eq_nil_iff.mp hsplit.text_eq.symm).1
  | cons c rest ih =>
    rw [splitPath?] at h
    split at h
    · exact absurd h (by simp)
    · rename_i hnone
      intro hsplit
      rcases splits_cons_iff.mp hsplit with ⟨-, htail⟩ | ⟨more, -, hmore⟩
      · rw [hnone] at htail
        exact absurd htail (by simp)
      · exact ih h hmore

/-- The reader finds the first split. -/
theorem splitPath?_eq_some_iff :
    splitPath? [] text = some (path, tail) ↔ SplitsFirst text path tail := by
  constructor
  · intro h
    obtain ⟨path', rfl, hfirst⟩ := splitsFirst_of_splitPath? h
    exact hfirst
  · intro hfirst
    cases h : splitPath? [] text with
    | none => exact absurd hfirst.toSplits (not_splits_of_splitPath? h)
    | some found =>
      obtain ⟨path', hpath', hfirst'⟩ := splitsFirst_of_splitPath? h
      obtain ⟨rfl, rfl⟩ := hfirst.unique hfirst'
      exact congrArg some (Prod.ext hpath' rfl)

/-! ## One line -/

theorem position?_eq_some_iff {n : Nat} : position? digits = some n ↔ WritesPosition digits n := by
  have hlimit : wordLimit = 2 ^ 64 := rfl
  unfold position?
  constructor
  · intro h
    split at h
    · rename_i hascii
      simp only at h
      split at h
      · rename_i hlt
        obtain rfl := Option.some.inj h
        exact ⟨List.all_eq_true.mp hascii, rfl, hlimit ▸ hlt⟩
      · exact absurd h (by simp)
    · exact absurd h (by simp)
  · rintro ⟨hascii, rfl, hlt⟩
    rw [if_pos (List.all_eq_true.mpr hascii)]
    exact if_pos (hlimit ▸ hlt)

/-- A line reports what its first split shows, once it is trimmed. -/
theorem ofLine?_eq_some_iff {line : List Char} {d : Diagnostic} :
    ofLine? root line = some d ↔ Reports root (Text.trimEnd line) d := by
  simp only [ofLine?, Option.bind_eq_bind, Option.bind_eq_some_iff, Prod.exists,
    splitPath?_eq_some_iff, position?_eq_some_iff]
  constructor
  · rintro ⟨path, tail, hfirst, n, hline, column, hcolumn, hd⟩
    obtain rfl := Option.some.inj hd
    exact ⟨path, tail, hfirst, rfl, hline, hcolumn, rfl, rfl⟩
  · rintro ⟨path, tail, hfirst, hfile, hline, hcolumn, hcode, hmessage⟩
    refine ⟨path, tail, hfirst, d.line, hline, d.column, hcolumn, ?_⟩
    rw [← hfile, ← hcode, ← hmessage]
    rfl

/-- A path cannot end where no code follows, -/
example : ofLine? ⟨"/r"⟩ "a(1,2): error : b(3,4): error E: m ".toList
    = some ⟨⟨"/r/a(1,2): error : b"⟩, 3, 4, "E", "m"⟩ := by decide

/-- but where it can, a position that is too large is not made up for further on. -/
example : ofLine? ⟨"/r"⟩ "a(1,18446744073709551616): error E: b(3,4): error E: m".toList
    = none := by decide

/-! ## Whole outputs -/

/-- An output is read piece by piece between its line feeds. -/
theorem ofCompilerText_eq_filterMap (root : Path) (text : List Char) :
    ofCompilerText root (String.ofList text)
      = (Text.pieces '\n' text).filterMap (ofLine? root) := by
  induction hn : text.length using Nat.strongRecOn generalizing text with
  | _ n ih =>
    subst hn
    by_cases hmem : '\n' ∈ text
    · obtain ⟨line, rest, rfl, hline⟩ := List.eq_append_cons_of_mem hmem
      have hrest := ih rest.length (by simp; omega) rest rfl
      rw [ofCompilerText_line hline, hrest, Text.pieces_append_cons,
        Text.pieces_of_not_mem hline, List.singleton_append, List.filterMap_cons]
      cases ofLine? root line <;> rfl
    · rw [ofCompilerText, String.toList_ofList, Text.pieces_of_not_mem hmem, List.filterMap_cons,
        List.filterMap_nil]
      by_cases hnil : text = []
      · rw [hnil]
        rfl
      · rw [Line.ofText_of_not_mem hmem hnil]
        rfl

/-- An output is read line by line. A line reports a diagnostic exactly if, trimmed, it is a path,
two positions, a code and a message, and the positions behind the shortest such path are numbers;
the diagnostic is then made of these parts. So the lines of two outputs, one below the other, are
those of the first and those of the second, whatever they end in, and of a compiler's two outputs
both are read. -/
theorem ofCompilerText_grammar (root : Path) :
    (∀ text : String, ofCompilerText root text
      = (Text.pieces '\n' text.toList).filterMap (ofLine? root)) ∧
    (∀ (line : List Char) (d : Diagnostic),
      ofLine? root line = some d ↔ Reports root (Text.trimEnd line) d) ∧
    (∀ a b : String, ofCompilerText root (a ++ "\n" ++ b)
      = ofCompilerText root a ++ ofCompilerText root b) ∧
    ∀ (place : Place) (program : String) (args : List String) (printed : Printed),
      Extractor.read ⟨place, ⟨program, args, .tsc⟩⟩ printed = .ok
        (ofCompilerText (FileTree.pathOf place) (String.ofList (Text.ofBytes printed.stdout.toList))
          ++ ofCompilerText (FileTree.pathOf place)
            (String.ofList (Text.ofBytes printed.stderr.toList))) := by
  have hlines : ∀ (root : Path) (text : String), ofCompilerText root text
      = (Text.pieces '\n' text.toList).filterMap (ofLine? root) := by
    intro root text
    rw [← ofCompilerText_eq_filterMap, String.ofList_toList]
  have happend : ∀ (root : Path) (a b : List Char),
      ofCompilerText root (String.ofList (a ++ '\n' :: b))
        = ofCompilerText root (String.ofList a) ++ ofCompilerText root (String.ofList b) := by
    intro root a b
    simp only [ofCompilerText_eq_filterMap, Text.pieces_append_cons, List.filterMap_append]
  refine ⟨hlines root, fun line d => ofLine?_eq_some_iff, fun a b => ?_,
    fun place program args printed => ?_⟩
  · have htext : a ++ "\n" ++ b = String.ofList (a.toList ++ '\n' :: b.toList) := by
      rw [String.ext_iff]
      simp
    rw [htext, happend, String.ofList_toList, String.ofList_toList]
  · exact congrArg Except.ok (happend _ _ _)

end SourceRepair.Diagnostic
