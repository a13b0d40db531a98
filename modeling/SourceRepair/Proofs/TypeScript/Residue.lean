import SourceRepair.Proofs.Edit.Image
import SourceRepair.Proofs.Rule.Rewriting
import SourceRepair.Proofs.TypeScript.Shapes

/-!
# Syntax repairs only touch punctuation

The residue of a text is what is left of it without white space, quotes and the punctuation
`, ; : . ? [ }`. `residue_fixContent` says that repairs for syntax errors keep the residue of a
file: no name, keyword, number, operator, parenthesis or opening brace is lost, repeated or moved.

The argument goes from single fixes up. Each fixer puts together groups that its pattern has read
and drops or adds filler (`KeepsResidue`, one lemma a rule); a rewrite, a folded line and a planned
edit inherit this, and the splice puts every edit where the text stood that it was made from.
-/

namespace SourceRepair.TypeScript

open Pattern CharClass

/-- A character that repairs of syntax errors may add or remove. -/
def isFiller (c : Char) : Bool :=
  isWhite c || ",;:.?[\x7d'\"\u2018\u2019\u201C\u201D".toList.contains c

/-- What is left of a text without filler. -/
def residue (text : List Char) : List Char :=
  text.filter (!isFiller ·)

@[simp] theorem residue_append (s t : List Char) : residue (s ++ t) = residue s ++ residue t :=
  List.filter_append s t

theorem residue_cons (c : Char) (text : List Char) :
    residue (c :: text) = residue [c] ++ residue text :=
  residue_append [c] text

theorem residue_eq_nil {text : List Char} (h : ∀ c ∈ text, isFiller c = true) :
    residue text = [] :=
  List.filter_eq_nil_iff.mpr fun c hc => by simp [h c hc]

/-- White space at the end is filler. -/
@[simp] theorem residue_trimEnd (text : List Char) :
    residue (Text.trimEnd text) = residue text := by
  have hdropped : residue (text.reverse.takeWhile isWhite) = [] :=
    residue_eq_nil fun c hc => by
      rw [isFiller, List.all_eq_true.mp List.all_takeWhile c hc, Bool.true_or]
  have hsplit := congrArg residue
    (List.takeWhile_append_dropWhile (p := isWhite) (l := text.reverse))
  rw [residue_append, hdropped, List.nil_append] at hsplit
  rw [Text.trimEnd, residue, List.filter_reverse]
  have := congrArg List.reverse hsplit
  rw [residue, residue, List.filter_reverse, List.reverse_reverse] at this
  exact this

/-- The word read by a pattern of filler leaves nothing. -/
theorem residue_eq_nil_of_reads {p : Pattern} {before word rest : List Char} {groups : Captures}
    (h : p.Reads before word rest groups) (hp : p.OnlyReads (isFiller · = true)) :
    residue word = [] :=
  residue_eq_nil (h.forall_mem hp)

/-! ## Fixes -/

/-- No fix of the rule changes the residue of its match. -/
def KeepsResidue (rule : Rule) : Prop :=
  ∀ m : Match, m.Of rule.pattern → ∀ replacement, rule.fixer.bind (· m) = some replacement →
    residue replacement = residue m.text

/-- What a rule for filler replaces by filler leaves nothing before and after. -/
theorem keepsResidue_of_filler {rule : Rule} (hread : rule.pattern.OnlyReads (isFiller · = true))
    (hwrite : ∀ m replacement, rule.fixer.bind (· m) = some replacement →
      residue replacement = []) : KeepsResidue rule := by
  intro m hm replacement h
  rw [residue_eq_nil_of_reads hm hread, hwrite m replacement h]

/-- Leaving out an assertion in front of a pattern. -/
theorem of_assertion {m : Match} {condition : Assertion} {p : Pattern}
    (hm : m.Of (seq (assertion condition) p)) : m.Of p :=
  Reads.of_assertion hm

/-- A match that starts with a group and goes on with filler has the residue of the group. -/
theorem residue_group {m : Match} {name : String} {body tail : Pattern}
    (hm : m.Of (seq (group name body) tail)) (hbody : body.groupNames = [])
    (hname : name ∉ tail.groupNames) (htail : tail.OnlyReads (isFiller · = true)) :
    residue (m.group name) = residue m.text := by
  obtain ⟨front, back, late, htext, hgroups, hlate, -, hback⟩ := hm.group_seq hbody hname
  have hgroup : m.group name = front := Match.group_eq_of_groups hgroups hlate
  rw [hgroup, htext, residue_append, residue_eq_nil_of_reads hback htail, List.append_nil]

/-- Filler behind a text does not change the residue. -/
theorem residue_append_filler (text : List Char) {filler : List Char}
    (h : residue filler = []) : residue (text ++ filler) = residue text := by
  rw [residue_append, h, List.append_nil]

theorem residue_semicolonAfter {m : Match} {name : String} {replacement : List Char}
    (h : semicolonAfter name m = some replacement) :
    residue replacement = residue (m.group name) := by
  obtain rfl := Option.some.inj h
  exact residue_append_filler _ rfl

theorem residue_terminate {m : Match} {replacement : List Char}
    (h : terminate m = some replacement) : residue replacement = residue (m.group "body") := by
  rw [eq_of_terminate h, residue_append_filler _ rfl, residue_trimEnd]

theorem residue_closeMember {member replacement : List Char}
    (h : closeMember member = some replacement) : residue replacement = residue member := by
  rw [eq_of_closeMember h]
  exact residue_append_filler _ rfl

/-! ## Rules that read and write filler only -/

theorem keepsResidue_duplicateComma : KeepsResidue duplicateComma := by
  refine keepsResidue_of_filler (by simp [duplicateComma, isFiller, isWhite]) fun m _ h => ?_
  obtain rfl := Option.some.inj h
  rfl

theorem keepsResidue_duplicateSemicolon : KeepsResidue duplicateSemicolon := by
  refine keepsResidue_of_filler (by simp [duplicateSemicolon, isFiller, isWhite]) fun m _ h => ?_
  obtain rfl := Option.some.inj h
  rfl

theorem keepsResidue_commaAsTerminator : KeepsResidue commaAsTerminator := by
  refine keepsResidue_of_filler (by simp [commaAsTerminator, isFiller, isWhite]) fun m _ h => ?_
  obtain rfl := Option.some.inj h
  rfl

theorem keepsResidue_orphanedBrace : KeepsResidue orphanedBrace := by
  refine keepsResidue_of_filler (by simp [orphanedBrace, closingBrace, isFiller, isWhite])
    fun m _ h => ?_
  obtain rfl := Option.some.inj h
  rfl

/-- A rule without a fixer changes nothing. -/
theorem keepsResidue_unterminatedString : KeepsResidue unterminatedString := by
  intro m _ replacement h
  exact absurd h (by simp [unterminatedString])

/-! ## Rules that keep one group -/

theorem keepsResidue_missingTerminator : KeepsResidue missingTerminator := by
  intro m hm replacement h
  rw [residue_terminate h]
  exact residue_group (of_assertion hm) rfl (by decide) (by simp [OnlyReads])

theorem keepsResidue_missingAssignmentTerminator : KeepsResidue missingAssignmentTerminator := by
  intro m hm replacement h
  rw [residue_terminate h]
  exact residue_group (of_assertion hm) rfl (by decide) (by simp [OnlyReads])

theorem keepsResidue_importTrailingComma : KeepsResidue importTrailingComma := by
  intro m hm replacement h
  rw [residue_semicolonAfter h]
  exact residue_group hm rfl (by decide) (by simp [OnlyReads, isFiller, isWhite])

theorem keepsResidue_exportListTrailingComma : KeepsResidue exportListTrailingComma := by
  intro m hm replacement h
  rw [residue_semicolonAfter h]
  exact residue_group (of_assertion hm) rfl (by decide) (by simp [OnlyReads, isFiller, isWhite])

theorem keepsResidue_missingPropertyComma : KeepsResidue missingPropertyComma := by
  intro m hm replacement h
  rw [residue_closeMember h]
  exact residue_group (of_assertion hm) rfl (by decide) (by simp [OnlyReads, isFiller, isWhite])

theorem keepsResidue_missingMemberComma : KeepsResidue missingMemberComma := by
  intro m hm replacement h
  obtain rfl := Option.some.inj h
  rw [residue_append_filler _ rfl]
  exact residue_group (of_assertion hm) rfl (by decide) (by simp [OnlyReads, isFiller, isWhite])

theorem keepsResidue_danglingMemberAccess : KeepsResidue danglingMemberAccess := by
  intro m hm replacement h
  obtain rfl := Option.some.inj h
  exact residue_group hm rfl (by decide) (by simp [OnlyReads, isFiller, isWhite])

theorem keepsResidue_orphanedBraceAfterReturn : KeepsResidue orphanedBraceAfterReturn := by
  intro m hm replacement h
  rw [residue_semicolonAfter h]
  exact residue_group (of_assertion hm) rfl (by decide)
    (by simp [OnlyReads, closingBrace, isFiller, isWhite])

/-! ## Rules that put several groups together -/

theorem keepsResidue_missingPropertyColon : KeepsResidue missingPropertyColon := by
  intro m hm replacement h
  obtain ⟨indent, _, late₁, htext, hgroups, -, -, hm⟩ :=
    Reads.group_seq (of_assertion hm) rfl (by decide)
  obtain ⟨key, _, late₂, rfl, rfl, -, -, hm⟩ := Reads.group_seq hm rfl (by decide)
  obtain ⟨between, _, rfl, hbetween, hm⟩ := Reads.seq_of_groupNames hm rfl
  obtain ⟨value, _, late₃, rfl, rfl, -, -, rfl, rfl⟩ := Reads.group_seq hm rfl (by decide)
  have hgap : residue between = [] :=
    residue_eq_nil_of_reads hbetween (by simp [isFiller, isWhite])
  have hindent : m.group "indent" = indent := by rw [Match.group, Match.group?, hgroups]; rfl
  have hkey : m.group "key" = key := by rw [Match.group, Match.group?, hgroups]; rfl
  have hvalue : m.group "value" = value := by rw [Match.group, Match.group?, hgroups]; rfl
  have hcolon : residue [':', ' '] = [] := rfl
  rw [eq_of_insertColon h, hindent, hkey, hvalue]
  simp only [htext, residue_append, hgap, hcolon, List.append_nil, List.nil_append,
    List.append_assoc]

theorem keepsResidue_commaBeforeMember : KeepsResidue commaBeforeMember := by
  intro m hm replacement h
  obtain ⟨above, _, late₁, htext, hgroups, -, -, hm⟩ :=
    Reads.group_seq (of_assertion hm) rfl (by decide)
  obtain ⟨trailing, _, rfl, htrailing, hm⟩ := Reads.seq_of_groupNames hm rfl
  obtain ⟨lineFeed, _, rfl, hlineFeed, hm⟩ := Reads.seq_of_groupNames hm rfl
  obtain ⟨member, _, late₂, rfl, rfl, -, -, hm⟩ := Reads.group_seq hm rfl (by decide)
  have hafter := residue_eq_nil_of_reads hm (by simp [OnlyReads])
  have htrailing := residue_eq_nil_of_reads htrailing (by simp [isFiller, isWhite])
  have hlineFeed := residue_eq_nil_of_reads hlineFeed (by simp [isFiller, isWhite])
  obtain rfl := hm.groups_eq_nil rfl
  have habove : m.group "prev" = above := by rw [Match.group, Match.group?, hgroups]; rfl
  have hmember : m.group "member" = member := by rw [Match.group, Match.group?, hgroups]; rfl
  have hwhole : residue m.text = residue above ++ residue member := by
    simp only [htext, residue_append, htrailing, hlineFeed, hafter, List.append_nil,
      List.nil_append]
  obtain ⟨closed, hclosed, rfl⟩ := Option.map_eq_some_iff.mp (show _ = some replacement from h)
  rw [habove] at hclosed
  have hresidue : residue closed = residue above := by
    split at hclosed
    · obtain rfl := Option.some.inj hclosed
      exact residue_append_filler _ rfl
    · exact residue_closeMember hclosed
  rw [residue_append, hresidue, residue_cons, hmember, hwhole]
  rfl

theorem keepsResidue_braceLeadingComma : KeepsResidue braceLeadingComma := by
  intro m hm replacement h
  obtain ⟨brace, tail, htext, hbrace, hm⟩ := Reads.seq_of_groupNames hm rfl
  obtain ⟨rfl, -⟩ := reads_lit.mp hbrace
  have htail := residue_eq_nil_of_reads hm (by simp [OnlyReads, isFiller, isWhite])
  obtain rfl := Option.some.inj h
  rw [htext, residue_append_filler _ htail]
  split <;> rfl

/-- A text between delimiters of filler, captured as the only group, is all that counts. -/
theorem residue_delimited {m : Match} {name : String} {opening body closing : Pattern}
    (hm : m.Of (sequence [opening, group name body, closing]))
    (hopening : opening.groupNames = [] ∧ opening.OnlyReads (isFiller · = true))
    (hbody : body.groupNames = [])
    (hclosing : closing.groupNames = [] ∧ closing.OnlyReads (isFiller · = true)) :
    ∃ text, m.groups = [(name, text)] ∧ residue m.text = residue text := by
  have hnames : (seq closing empty).groupNames = [] := by
    rw [groupNames, hclosing.1]
    rfl
  obtain ⟨front, _, htext, hfront, hm⟩ := Reads.seq_of_groupNames hm hopening.1
  obtain ⟨text, back, late, rfl, hgroups, -, -, hback⟩ :=
    Reads.group_seq (p := seq closing empty) hm hbody (by simp [hnames])
  obtain rfl := hback.groups_eq_nil hnames
  refine ⟨text, hgroups, ?_⟩
  rw [htext, residue_append, residue_eq_nil_of_reads hfront hopening.2, List.nil_append,
    residue_append_filler _ (residue_eq_nil_of_reads hback ⟨hclosing.2, trivial⟩)]

theorem keepsResidue_smartQuotes : KeepsResidue smartQuotes := by
  intro m hm replacement h
  replace h : straightenQuotes m = some replacement := h
  rcases hm with hm | hm
  · obtain ⟨text, hgroups, hresidue⟩ := residue_delimited (m := m) hm
      ⟨rfl, by simp [curlySingle, isFiller]⟩ rfl ⟨rfl, by simp [curlySingle, isFiller]⟩
    have hsingle : m.group? "single" = some text := by rw [Match.group?, hgroups]; rfl
    rw [straightenQuotes, hsingle] at h
    obtain rfl := Option.some.inj h
    rw [hresidue, residue_append_filler _ rfl]
    rfl
  · obtain ⟨text, hgroups, hresidue⟩ := residue_delimited (m := m) hm
      ⟨rfl, by simp [curlyDouble, isFiller]⟩ rfl ⟨rfl, by simp [curlyDouble, isFiller]⟩
    have hsingle : m.group? "single" = none := by rw [Match.group?, hgroups]; rfl
    have hdouble : m.group? "double" = some text := by rw [Match.group?, hgroups]; rfl
    rw [straightenQuotes, hsingle, hdouble] at h
    obtain rfl := Option.some.inj h
    rw [hresidue, residue_append_filler _ rfl]
    rfl

/-! ## Files -/

/-- The codes of the syntax errors whose repairs touch punctuation only. -/
def punctuationCodes : List String :=
  ["TS1005", "TS1003", "TS1128", "TS1136", "TS1127", "TS1002"]

/-- The rules registered for these codes keep the residue of their matches. -/
theorem keepsResidue_of_mem_specific {code : String} {rule : Rule}
    (hcode : code ∈ punctuationCodes) (hrule : rule ∈ catalog.specific code) :
    KeepsResidue rule := by
  have hcode : code = "TS1005" ∨ code = "TS1003" ∨ code = "TS1128" ∨ code = "TS1136" ∨
      code = "TS1127" ∨ code = "TS1002" := by simpa [punctuationCodes] using hcode
  rcases hcode with rfl | rfl | rfl | rfl | rfl | rfl
  · have hrule : rule ∈ [missingTerminator, missingAssignmentTerminator, importTrailingComma,
        exportListTrailingComma, commaAsTerminator, missingPropertyColon, commaBeforeMember,
        missingPropertyComma, missingMemberComma] := hrule
    simp only [List.mem_cons, List.not_mem_nil, or_false] at hrule
    rcases hrule with rfl | rfl | rfl | rfl | rfl | rfl | rfl | rfl | rfl
    exacts [keepsResidue_missingTerminator, keepsResidue_missingAssignmentTerminator,
      keepsResidue_importTrailingComma, keepsResidue_exportListTrailingComma,
      keepsResidue_commaAsTerminator, keepsResidue_missingPropertyColon,
      keepsResidue_commaBeforeMember, keepsResidue_missingPropertyComma,
      keepsResidue_missingMemberComma]
  · obtain rfl := List.mem_singleton.mp (show rule ∈ [danglingMemberAccess] from hrule)
    exact keepsResidue_danglingMemberAccess
  · have hrule : rule ∈ [orphanedBraceAfterReturn, orphanedBrace] := hrule
    simp only [List.mem_cons, List.not_mem_nil, or_false] at hrule
    rcases hrule with rfl | rfl
    exacts [keepsResidue_orphanedBraceAfterReturn, keepsResidue_orphanedBrace]
  · obtain rfl := List.mem_singleton.mp (show rule ∈ [braceLeadingComma] from hrule)
    exact keepsResidue_braceLeadingComma
  · obtain rfl := List.mem_singleton.mp (show rule ∈ [smartQuotes] from hrule)
    exact keepsResidue_smartQuotes
  · obtain rfl := List.mem_singleton.mp (show rule ∈ [unterminatedString] from hrule)
    exact keepsResidue_unterminatedString

/-- Every rule tried for a code of these, or for a code without rules of its own, keeps the residue
of its matches. -/
theorem keepsResidue_of_mem_rulesFor {code : String} {rule : Rule}
    (hcode : code ∈ punctuationCodes ∨ catalog.specific code = [])
    (hrule : rule ∈ catalog.rulesFor code) : KeepsResidue rule := by
  rcases List.mem_append.mp hrule with huniversal | hspecific
  · have huniversal : rule ∈ [duplicateComma, duplicateSemicolon] := huniversal
    simp only [List.mem_cons, List.not_mem_nil, or_false] at huniversal
    rcases huniversal with rfl | rfl
    · exact keepsResidue_duplicateComma
    · exact keepsResidue_duplicateSemicolon
  · rcases hcode with hcode | hnone
    · exact keepsResidue_of_mem_specific hcode hspecific
    · rw [hnone] at hspecific
      exact absurd hspecific List.not_mem_nil

/-- Repairs of syntax errors keep the residue of a file. -/
theorem residue_fixContent (file : Path) (content : List Char) (batch : List Diagnostic)
    (hcodes : ∀ d ∈ batch, d.code ∈ punctuationCodes ∨ catalog.specific d.code = []) :
    residue (catalog.fixContent file content batch).finalContent = residue content := by
  have hread : PassesLineEnds residue := ⟨residue_append, rfl, rfl⟩
  refine Catalog.fixContent_image hread file content fun d hd rule hrule text result h => ?_
  exact Rule.rewrite_image residue_append (keepsResidue_of_mem_rulesFor (hcodes d hd) hrule) h

/-- A semicolon is added and a comma removed, and the rest is as before. -/
theorem residue_fixContent_semicolon_comma :
    (∀ d ∈ ([⟨⟨"a.ts"⟩, 1, 9, "TS1005", ""⟩, ⟨⟨"a.ts"⟩, 2, 1, "TS2304", ""⟩] : List Diagnostic),
      d.code ∈ punctuationCodes ∨ catalog.specific d.code = []) ∧
    residue (catalog.fixContent ⟨"a.ts"⟩ "let xs = f(1, 2)\nlet a = [1,, 2];\n".toList
      [⟨⟨"a.ts"⟩, 1, 9, "TS1005", ""⟩, ⟨⟨"a.ts"⟩, 2, 1, "TS2304", ""⟩]).finalContent =
      "letxs=f(12)leta=12]".toList := by
  have hcodes : ∀ d ∈ ([⟨⟨"a.ts"⟩, 1, 9, "TS1005", ""⟩, ⟨⟨"a.ts"⟩, 2, 1, "TS2304", ""⟩] :
      List Diagnostic), d.code ∈ punctuationCodes ∨ catalog.specific d.code = [] := by
    intro d hd
    simp only [List.mem_cons, List.not_mem_nil, or_false] at hd
    rcases hd with rfl | rfl
    · exact .inl (by decide)
    · exact .inr rfl
  refine ⟨hcodes, (residue_fixContent _ _ _ hcodes).trans ?_⟩
  decide +kernel

end SourceRepair.TypeScript
