import SourceRepair.Proofs.Edit.Splicing
import SourceRepair.Proofs.Literal.Comments
import SourceRepair.Proofs.Scan.Computed
import SourceRepair.Proofs.Text.Cutting
import SourceRepair.Proofs.TypeScript.LineEnds

/-!
# Lines that repairs leave alone

A repair sees one line or two, and looks for literals and comments in these alone. So it takes the
text of a template literal for code if the literal begins further up, and may rewrite a line that
lies in it from end to end (`fixContent_not_only_code`). A line in literals and comments that begins
in code is safe (`covers_eq_false_of_inLiterals`). Such a line holds nothing but comments, and what
makes it a comment stands in the line itself, where a repair sees it as well.

Edits can reach the line in three ways. A rule for single lines finds no code in it. A rule that
joins it to the line above needs a member or a brace at its start, and finds a slash. A rule that
joins the line below to it starts its match in the upper line, which is covered there as it is in
the file.
-/

namespace SourceRepair

open Text LiteralSpans

/-- Line `index` of the text is not empty, and all its bytes lie in literals and comments. -/
structure Line.InLiterals (text : List Char) (index : Nat) (line : Line) : Prop where
  getElem?_eq : (ofText text)[index]? = some line
  text_ne_nil : line.text ≠ []
  covers : ∀ offset, startOf (ofText text) index ≤ offset →
    offset < startOf (ofText text) index + utf8Size line.text →
    Span.covers (literalSpans text) offset = true

/-- No literal or comment of the text runs into line `index` from above. -/
def Line.BeginsInCode (text : List Char) (index : Nat) : Prop :=
  ∀ span ∈ literalSpans text,
    ¬(span.start < startOf (ofText text) index ∧ startOf (ofText text) index < span.stop)

instance (text : List Char) (index : Nat) (line : Line) :
    Decidable (Line.InLiterals text index line) :=
  decidable_of_iff ((Line.ofText text)[index]? = some line ∧ line.text ≠ [] ∧
      ∀ offset < Line.startOf (Line.ofText text) index + utf8Size line.text,
        Line.startOf (Line.ofText text) index ≤ offset →
          Span.covers (literalSpans text) offset = true)
    ⟨fun ⟨hline, hne, h⟩ => ⟨hline, hne, fun offset hlow hhigh => h offset hhigh hlow⟩,
      fun ⟨hline, hne, h⟩ => ⟨hline, hne, fun offset hhigh hlow => h offset hlow hhigh⟩⟩

instance (text : List Char) (index : Nat) : Decidable (Line.BeginsInCode text index) :=
  inferInstanceAs (Decidable (∀ span ∈ literalSpans text, _))

/-- A line in literals that begins in code is all comment. -/
theorem Line.InLiterals.isComment {text : List Char} {index : Nat} {line : Line}
    (h : InLiterals text index line) (hcode : BeginsInCode text index) :
    isComment false line.text = true :=
  isComment_of_covers_line (text_eq_around h.getElem?_eq) (render_take_endsInLineFeed h.getElem?_eq)
    (breaksLine_of_getElem? h.getElem?_eq) h.text_ne_nil h.covers hcode

/-- A line of comments begins with a slash. -/
theorem LiteralSpans.head_of_isComment {line : List Char} (h : isComment false line = true) :
    ∀ c ∈ line.head?, c = '/' := by
  intro c hc
  cases line with
  | nil => exact absurd hc (by simp)
  | cons d rest =>
    obtain rfl := Option.some.inj hc
    by_contra hne
    rw [isComment.eq_def] at h
    simp [hne] at h

namespace TypeScript

open Pattern

/-! ## Where matches stand -/

/-- Every pattern of the catalog reads something. -/
theorem consumes_of_mem_rules {rule : Rule} (h : rule ∈ catalog.rules) :
    rule.pattern.consumes = true := by
  have hall : ∀ rule ∈ catalog.rules, rule.pattern.consumes = true := by decide
  exact hall rule h

/-- Names hold only word characters and dollar signs. -/
theorem onlyReads_nameChar_ne {d : Char} (hword : CharClass.isWord d = false) (hne : '$' ≠ d) :
    nameChar.OnlyReads (· ≠ d) := by
  rintro c hc rfl
  rcases Bool.or_eq_true _ _ ▸ hc with h | h
  · exact absurd h (by simp [hword])
  · exact hne (eq_of_beq h).symm

/-- Members do not begin like a comment. -/
theorem firstReads_memberStart : memberStart.FirstReads (· ≠ '/') := by
  have hname : (oneOrMore nameChar).FirstReads (· ≠ '/') :=
    OnlyReads.firstReads (onlyReads_oneOrMore.mpr (onlyReads_nameChar_ne (by decide) (by decide)))
  have hquoted : quotedKey.FirstReads (· ≠ '/') := by
    refine ⟨⟨OnlyReads.firstReads ?_, Or.inl rfl⟩, ⟨OnlyReads.firstReads ?_, Or.inl rfl⟩⟩
    · simp
    · simp
  have hspread : (lit "...").FirstReads (· ≠ '/') := OnlyReads.firstReads (by simp)
  exact ⟨hspread, ⟨hname, hquoted⟩, Or.inl rfl⟩

/-- A property on one line is on one line. -/
theorem onlyReads_openProperty : openProperty.OnlyReads (· ≠ '\n') := by
  have hname : nameChar.OnlyReads (· ≠ '\n') := onlyReads_nameChar_ne (by decide) (by decide)
  have hedge : valueEdge.OnlyReads (· ≠ '\n') := by
    rintro c hedge rfl
    exact absurd hedge (by decide)
  have hline : (many inLine).OnlyReads (· ≠ '\n') := by simp [inLine, noneOf, OnlyReads]
  simp [openProperty, hname, hedge, hline]

/-- A match that joins two lines in the way of `joined_shape`, piece by piece. -/
theorem exists_of_reads_joined {name : String} {body below : Pattern} {m : Match}
    (hm : m.Of (seq lineStart (seq (group name body) (seq blanks (seq (lit "\n") below)))))
    (hnames : body.groupNames = [] ∧ name ∉ below.groupNames)
    (hbody : body.consumes = true ∧ body.OnlyReads (· ≠ '\n'))
    (hbelow : below.consumes = true ∧ below.FirstReads (· ≠ '/')) :
    ∃ front c back, m.text = front ++ '\n' :: c :: back ∧ front ≠ [] ∧ '\n' ∉ front ∧ c ≠ '/' := by
  obtain ⟨above, _, _, htext, -, -, habove, hm⟩ :=
    Reads.group_seq (Reads.of_assertion hm) hnames.1 hnames.2
  obtain ⟨trailing, _, rfl, htrailing, hm⟩ := Reads.seq_of_groupNames hm rfl
  obtain ⟨lineFeed, word, rfl, hlineFeed, hword⟩ := Reads.seq_of_groupNames hm rfl
  obtain ⟨rfl, -⟩ := reads_lit.mp hlineFeed
  obtain ⟨c, back, rfl⟩ := List.exists_cons_of_ne_nil (hword.ne_nil hbelow.1)
  refine ⟨above ++ trailing, c, back, ?_, ?_, ?_, hword.forall_head hbelow.2 c rfl⟩
  · rw [htext]
    simp
  · exact List.append_ne_nil_of_left_ne_nil (habove.ne_nil hbody.1) trailing
  · rw [List.mem_append, not_or]
    have hblank : ∀ c ∈ trailing, c ≠ '\n' := htrailing.forall_mem (by simp)
    exact ⟨fun hmem => habove.forall_mem hbody.2 '\n' hmem rfl, fun hmem => hblank '\n' hmem rfl⟩

/-- A match that takes in the line above reads some of it, and behind the line feed it begins with
something other than a slash. -/
theorem joined_shape {rule : Rule} (hrule : rule ∈ catalog.rules)
    (hwindow : rule.window = .withPrevious) {m : Match} (hm : m.Of rule.pattern) :
    ∃ front c back, m.text = front ++ '\n' :: c :: back ∧ front ≠ [] ∧ '\n' ∉ front ∧ c ≠ '/' := by
  have hmem : rule ∈ catalog.rules.filter (·.window == .withPrevious) := by
    rw [List.mem_filter, hwindow]
    exact ⟨hrule, rfl⟩
  have hmem : rule ∈ [commaBeforeMember, orphanedBraceAfterReturn] := hmem
  simp only [List.mem_cons, List.not_mem_nil, or_false] at hmem
  rcases hmem with rfl | rfl
  · refine exists_of_reads_joined hm ⟨rfl, by decide⟩ ⟨rfl, ?_⟩ ⟨rfl, ?_⟩
    · simp [OnlyReads, onlyReads_openProperty]
    · have hblanks : blanks.FirstReads (· ≠ '/') := OnlyReads.firstReads (by simp)
      exact ⟨⟨hblanks, Or.inr ⟨firstReads_memberStart, Or.inl rfl⟩⟩, Or.inl rfl⟩
  · refine exists_of_reads_joined hm ⟨rfl, by decide⟩ ⟨rfl, ?_⟩ ⟨rfl, ?_⟩
    · have hvalue : (many (noneOf "\n;")).OnlyReads (· ≠ '\n') := by
        rintro c hc rfl
        exact absurd hc (by decide)
      have hlast : (one fun c => !CharClass.isWhite c && !"\n;\x7b,".toList.contains c).OnlyReads
          (· ≠ '\n') := by
        rintro c hc rfl
        exact absurd hc (by decide)
      refine onlyReads_sequence.mpr ?_
      simp only [List.forall_mem_cons]
      exact ⟨by simp, by simp, trivial, hvalue, hlast, List.forall_mem_nil _⟩
    · have hbrace : closingBrace.OnlyReads (· ≠ '/') := by simp [closingBrace]
      exact OnlyReads.firstReads ⟨hbrace, trivial⟩

section Comment

variable {line : List Char} (hcomment : isComment false line = true) (hline : '\n' ∉ line)
include hcomment hline

/-- In a text that begins with a line of comments, matches in code start behind it. -/
theorem size_le_start_of_mem_codeMatches {rule : Rule} {tail : List Char} (htail : BreaksLine tail)
    {m : Match} (hm : m ∈ rule.codeMatches (line ++ tail)) : utf8Size line ≤ m.start := by
  by_contra hlt
  obtain ⟨-, -, hcode⟩ := Rule.of_mem_codeMatches hm
  have hcovered := covers_of_isComment hcomment hline [] htail (Nat.le_refl 0)
    (Nat.zero_le m.start) (by omega)
  have hspans : literalSpans (line ++ tail) =
      LiteralSpans.scan (lineMode 0 false) [] 0 (line ++ tail) := rfl
  rw [hspans, hcovered] at hcode
  exact absurd hcode (by simp)

/-- No rule rewrites a line of comments by itself. -/
theorem rewrite_comment_ne_changed {rule : Rule} (hrule : rule ∈ catalog.rules)
    (result : List Char) : rule.rewrite line ≠ .changed result := by
  intro h
  obtain ⟨m, hm⟩ := Rule.exists_mem_codeMatches_of_changed h
  have hinside : m.start < utf8Size line :=
    Rule.start_lt_of_mem_codeMatches (consumes_of_mem_rules hrule) hm
  have hbehind : utf8Size line ≤ m.start := by
    rw [← List.append_nil line] at hm
    exact size_le_start_of_mem_codeMatches hcomment hline (by simp [BreaksLine]) hm
  omega

/-- No rule rewrites a line of comments together with the line above. -/
theorem rewrite_above_comment_ne_changed {rule : Rule} (hrule : rule ∈ catalog.rules)
    (hwindow : rule.window = .withPrevious) {above : List Char} (habove : '\n' ∉ above)
    (result : List Char) :
    rule.rewrite (above ++ '\n' :: line) ≠ .changed result := by
  intro h
  obtain ⟨m, hm⟩ := Rule.exists_mem_codeMatches_of_changed h
  obtain ⟨hof, htext, -⟩ := Rule.of_mem_codeMatches hm
  obtain ⟨front, c, back, hread, -, -, hc⟩ := joined_shape hrule hwindow hof
  have hsplit : above ++ '\n' :: line
      = (m.before.reverse ++ front) ++ '\n' :: (c :: back ++ m.after) := by
    rw [htext, hread]
    simp
  obtain ⟨-, hline'⟩ := Text.eq_of_append_lineFeed_eq hsplit habove hline
  exact hc (head_of_isComment hcomment c (by rw [← hline']; rfl))

/-- No rule rewrites a line of comments together with the line below. -/
theorem rewrite_below_comment_ne_changed {rule : Rule} (hrule : rule ∈ catalog.rules)
    (hwindow : rule.window = .withPrevious) {below : List Char} (hbelow : '\n' ∉ below)
    (result : List Char) : rule.rewrite (line ++ '\n' :: below) ≠ .changed result := by
  intro h
  obtain ⟨m, hm⟩ := Rule.exists_mem_codeMatches_of_changed h
  obtain ⟨hof, htext, -⟩ := Rule.of_mem_codeMatches hm
  obtain ⟨front, c, back, hread, hfront, -, -⟩ := joined_shape hrule hwindow hof
  have hstart : utf8Size line ≤ m.start :=
    size_le_start_of_mem_codeMatches hcomment hline (by simp [BreaksLine]) hm
  have hsplit : line ++ '\n' :: below
      = (m.before.reverse ++ front) ++ '\n' :: (c :: back ++ m.after) := by
    rw [htext, hread]
    simp
  obtain ⟨hline', -⟩ := Text.eq_of_append_lineFeed_eq hsplit hline hbelow
  -- the match would start before the end of the line
  obtain ⟨d, more, rfl⟩ := List.exists_cons_of_ne_nil hfront
  have hplace : m.start = utf8Size m.before := rfl
  have hpos := Char.utf8Size_pos d
  rw [← hline', utf8Size_append, utf8Size_reverse, utf8Size_cons] at hstart
  omega

/-! ## Plans -/

/-- The diagnostics of a line of comments leave it as it is. -/
theorem foldLine_comment {previous : Option (List Char)}
    (hprevious : ∀ above ∈ previous, '\n' ∉ above) (next : Option (List Char))
    (group : List Diagnostic) : catalog.foldLine previous next group line = ⟨line, 0, []⟩ := by
  induction group with
  | nil => rfl
  | cons d more ih =>
    rw [Catalog.foldLine]
    split
    · exact ih
    · rename_i repair hrepair
      obtain ⟨rule, hrule, ⟨-, -, h⟩ | ⟨hwindow, -, above, rfl, h⟩⟩ :=
        Catalog.repair?_eq_some hrepair
      · have hrule := Catalog.mem_rules_of_mem_rulesFor hrule
        exact absurd h (rewrite_comment_ne_changed hcomment hline hrule _)
      · have hrule := Catalog.mem_rules_of_mem_rulesFor hrule
        exact absurd h (rewrite_above_comment_ne_changed hcomment hline hrule hwindow
          (hprevious above rfl) _)

/-- The diagnostics of the line below do not take in a line of comments. -/
theorem foldLine_below_comment {current : List Char} (hcurrent : '\n' ∉ current)
    (next : Option (List Char)) (group : List Diagnostic) :
    (catalog.foldLine (some line) next group current).linesBefore = 0 := by
  by_contra hzero
  refine (@Catalog.foldLine_invariant catalog (some line) next ('\n' ∉ ·) (fun _ => False) group
    current hcurrent ?_ ?_).2 hzero
  · intro d _ text repair htext hrepair hzero
    obtain ⟨rule, hrule, ⟨-, -, h⟩ | ⟨-, hone, -⟩⟩ := Catalog.repair?_eq_some hrepair
    · exact lineFeed_not_mem_of_rewrite (Catalog.mem_rules_of_mem_rulesFor hrule) h htext
    · omega
  · intro d _ text repair htext hrepair hzero
    obtain ⟨rule, hrule, ⟨-, h, -⟩ | ⟨hwindow, -, above, habove, h⟩⟩ :=
      Catalog.repair?_eq_some hrepair
    · exact hzero h
    · obtain rfl := Option.some.inj habove
      have hrule := Catalog.mem_rules_of_mem_rulesFor hrule
      exact rewrite_below_comment_ne_changed hcomment hline hrule hwindow htext _ h

/-- An edit planned for a file of single lines replaces no line of comments. -/
theorem planLine?_covers_comment {lines : List (List Char)} (hsingle : ∀ text ∈ lines, '\n' ∉ text)
    {index : Nat} (hindex : lines[index]? = some line) {claimed : Option Nat}
    {group : List Diagnostic} {edit : PlannedEdit}
    (h : catalog.planLine? lines claimed group = some edit) : edit.covers (index + 1) = false := by
  obtain ⟨d, current, -, -, -, hcurrent, hrules, rfl⟩ := Catalog.planLine?_eq_some h
  have hfeed : '\n' ∉ current := hsingle current (List.mem_of_getElem? hcurrent)
  have habove : ∀ above ∈ Catalog.lineAbove? lines d.line, '\n' ∉ above := by
    intro above habove
    rw [Catalog.lineAbove?] at habove
    split at habove
    · exact absurd habove (by simp)
    · exact hsingle above (List.mem_of_getElem? habove)
  by_contra hcovers
  rw [Bool.not_eq_false, PlannedEdit.covers_eq_true] at hcovers
  obtain ⟨hfirst, hlast⟩ := hcovers
  by_cases hreported : d.line = index + 1
  · have hcurrent' : lines[index]? = some current := by
      rw [← hcurrent, hreported, Nat.add_sub_cancel]
    obtain rfl := Option.some.inj (hindex.symm.trans hcurrent')
    rw [foldLine_comment hcomment hline habove] at hrules
    exact hrules rfl
  · -- the line is above the one reported, and only a join would take it in
    have hbefore := Catalog.foldLine_linesBefore catalog (Catalog.lineAbove? lines d.line)
      lines[d.line]? group current
    have hnumber : d.line = index + 2 := by
      rcases hbefore with hbefore | ⟨hbefore, -⟩
      · simp only [hbefore] at hfirst hlast
        omega
      · simp only [hbefore] at hfirst hlast
        omega
    have hprevious : Catalog.lineAbove? lines d.line = some line := by
      rw [Catalog.lineAbove?, if_neg (by omega), hnumber, Nat.add_sub_cancel]
      exact hindex
    have hnone := foldLine_below_comment hcomment hline hfeed lines[d.line]? group
    rw [hprevious] at hfirst
    simp only [hnone] at hfirst
    omega

end Comment

/-- No edit replaces a line that lies in literals and comments, if the line begins in code. -/
theorem covers_eq_false_of_inLiterals {file : Path} {content : List Char}
    {batch : List Diagnostic} {index : Nat} {line : Line}
    (hline : Line.InLiterals content index line) (hcode : Line.BeginsInCode content index) :
    ∀ edit ∈ (catalog.fixContent file content batch).edits, edit.covers (index + 1) = false := by
  intro edit hedit
  obtain ⟨group, -, -, claimed, hplan⟩ := Catalog.mem_planEdits hedit
  have hsingle : ∀ text ∈ (Line.ofText content).map (·.text), '\n' ∉ text := by
    intro text htext
    obtain ⟨other, hother, rfl⟩ := List.mem_map.mp htext
    exact Line.lineFeed_not_mem_of_mem_ofText content other hother
  have hindex : ((Line.ofText content).map (·.text))[index]? = some line.text := by
    rw [List.getElem?_map, hline.getElem?_eq]
    rfl
  have hfeed : '\n' ∉ line.text := hsingle _ (List.mem_of_getElem? hindex)
  exact planLine?_covers_comment (hline.isComment hcode) hfeed hsingle hindex hplan

/-- A line comment is left alone although a diagnostic points at it. -/
theorem covers_eq_false_of_inLiterals_lineComment :
    Line.InLiterals "f(1,, 2);\n// a,, b\n".toList 1 ⟨"// a,, b".toList, .lineFeed⟩ ∧
    Line.BeginsInCode "f(1,, 2);\n// a,, b\n".toList 1 ∧
    ∀ edit ∈ (catalog.fixContent ⟨"a.ts"⟩ "f(1,, 2);\n// a,, b\n".toList
      [⟨⟨"a.ts"⟩, 1, 5, "TS1109", ""⟩, ⟨⟨"a.ts"⟩, 2, 5, "TS1005", ""⟩]).edits,
      edit.covers 2 = false := by
  have hinside : Line.InLiterals "f(1,, 2);\n// a,, b\n".toList 1
      ⟨"// a,, b".toList, .lineFeed⟩ := by decide +kernel
  have hcode : Line.BeginsInCode "f(1,, 2);\n// a,, b\n".toList 1 := by decide +kernel
  exact ⟨hinside, hcode, covers_eq_false_of_inLiterals hinside hcode⟩

/-- A line of a template literal is rewritten like code, since the literal begins further up. -/
theorem fixContent_not_only_code :
    ¬ ∀ (file : Path) (content : List Char) (batch : List Diagnostic) (index : Nat) (line : Line),
      Line.InLiterals content index line →
      ∀ edit ∈ (catalog.fixContent file content batch).edits, edit.covers (index + 1) = false := by
  have hinside : Line.InLiterals "const sql = \x60\nselect a,,b\n\x60;\n".toList 1
      ⟨"select a,,b".toList, .lineFeed⟩ := by decide +kernel
  have hlines : (Line.ofText "const sql = \x60\nselect a,,b\n\x60;\n".toList).map (·.text)
      = ["const sql = \x60".toList, "select a,,b".toList, "\x60;".toList] := by decide +kernel
  have hrewrite : duplicateComma.rewrite "select a,,b".toList = .changed "select a,b".toList := by
    simp only [Rule.rewrite, Rule.fixes, Rule.codeMatches_eq_computedMatches]
    decide +kernel
  have hrepair : catalog.repairAt?
      ["const sql = \x60".toList, "select a,,b".toList, "\x60;".toList]
      ⟨⟨"a.ts"⟩, 2, 9, "TS1005", ""⟩ = some ⟨"duplicate-comma", 0, "select a,b".toList⟩ := by
    have hevaluate : duplicateComma.evaluate ⟨some "const sql = \x60".toList,
        "select a,,b".toList, some "\x60;".toList, some ⟨⟨"a.ts"⟩, 2, 9, "TS1005", ""⟩⟩
        = .changed "select a,b".toList := hrewrite
    show Repair.first? ⟨some "const sql = \x60".toList, "select a,,b".toList,
      some "\x60;".toList, some ⟨⟨"a.ts"⟩, 2, 9, "TS1005", ""⟩⟩ (duplicateComma :: _) = _
    rw [Repair.first?, hevaluate]
    rfl
  intro hall
  have hcovers := hall ⟨"a.ts"⟩ _ [⟨⟨"a.ts"⟩, 2, 9, "TS1005", ""⟩] 1 _ hinside
    ⟨2, 2, ["select a,b".toList], ["duplicate-comma"]⟩ (by
      show _ ∈ catalog.planEdits ((Line.ofText _).map (·.text)) _
      rw [hlines, Catalog.planEdits_singleton hrepair]
      exact List.mem_singleton_self _)
  exact absurd hcovers (by decide)

end TypeScript
end SourceRepair
