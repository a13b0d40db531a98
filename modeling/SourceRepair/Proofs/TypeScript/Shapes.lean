import SourceRepair.Proofs.Pattern.Matches
import SourceRepair.TypeScript.Rules

/-!
# What the rules match and write

A fixer that looks at what it has read before it writes still writes one thing only
(`of_terminate`, `eq_of_insertColon`, `of_closeMember`). For each rule that needs no
diagnostic, one lemma says what a match of it looks like, piece by piece, and what its fix makes of
the pieces. Everything proved about fixes in a document starts from these lemmas, and none of them
looks at a pattern again.
-/

namespace SourceRepair.TypeScript

open Pattern CharClass

/-- A run of spaces and tabs. -/
def IsBlank (text : List Char) : Prop :=
  ∀ c ∈ text, c = ' ' ∨ c = '\t'

section Fixers

variable {m : Match} {member replacement : List Char}

/-- The statement that a fixer ends is the one that was read, without blanks at its end. It has no
comment, and its brackets pair up. -/
theorem of_terminate (h : terminate m = some replacement) :
    replacement = Text.trimEnd (m.group "body") ++ [';'] ∧
      mentionsComment (Text.trimEnd (m.group "body")) = false ∧
      bracketsBalanced (Text.trimEnd (m.group "body")) = true := by
  rw [terminate] at h
  split at h
  · exact absurd h (by simp)
  · split at h
    · exact absurd h (by simp)
    · rename_i hclosed
      simp only [Bool.or_eq_true, not_or, Bool.not_eq_true] at hclosed
      exact ⟨(Option.some.inj h).symm, hclosed.1.2, by simpa using hclosed.2⟩

theorem eq_of_terminate (h : terminate m = some replacement) :
    replacement = Text.trimEnd (m.group "body") ++ [';'] :=
  (of_terminate h).1

theorem eq_of_insertColon (h : insertColon m = some replacement) :
    replacement = m.group "indent" ++ m.group "key" ++ [':', ' '] ++ m.group "value" := by
  rw [insertColon] at h
  split at h
  · exact absurd h (by simp)
  · exact (Option.some.inj h).symm

theorem of_closeMember (h : closeMember member = some replacement) :
    replacement = member ++ [','] ∧ mentionsComment member = false ∧
      bracketsBalanced member = true := by
  rw [closeMember] at h
  split at h
  · exact absurd h (by simp)
  · rename_i hclosed
    simp only [Bool.or_eq_true, not_or, Bool.not_eq_true] at hclosed
    exact ⟨(Option.some.inj h).symm, hclosed.1, by simpa using hclosed.2⟩

theorem eq_of_closeMember (h : closeMember member = some replacement) :
    replacement = member ++ [','] :=
  (of_closeMember h).1

end Fixers

section Reading

variable {before word rest : List Char} {groups : Captures}

theorem reads_blanks (h : IsBlank word) : blanks.Reads before word rest [] :=
  reads_many fun c hc => by simpa using h c hc

/-- What stands for any run of blanks reads blanks. -/
theorem isBlank_of_reads (h : blanks.Reads before word rest groups) : IsBlank word :=
  h.forall_mem (by simp)

/-- A pattern that reads one character of a class reads just that. -/
theorem exists_of_reads_one {accepts : Char → Bool}
    (h : (one accepts).Reads before word rest groups) : ∃ c, word = [c] ∧ accepts c = true := by
  obtain ⟨c, hc, rfl, -⟩ := h
  exact ⟨c, rfl, hc⟩

/-- A quoted key stands between two quotes of one kind. -/
theorem exists_of_reads_quotedKey (h : quotedKey.Reads before word rest groups) :
    ∃ quote body, (quote = '\'' ∨ quote = '"') ∧ word = quote :: (body ++ [quote]) ∧
      ∀ c ∈ body, c ≠ quote ∧ c ≠ '\n' := by
  rcases h with h | h
  · obtain ⟨opening, _, rfl, hopening, h⟩ := Reads.seq_of_groupNames h rfl
    obtain ⟨body, _, rfl, hbody, h⟩ := Reads.seq_of_groupNames h rfl
    obtain ⟨closing, _, rfl, hclosing, rfl, -⟩ := Reads.seq_of_groupNames h rfl
    obtain ⟨rfl, -⟩ := reads_lit.mp hopening
    obtain ⟨rfl, -⟩ := reads_lit.mp hclosing
    refine ⟨'\'', body, Or.inl rfl, rfl, fun c hc => ?_⟩
    simpa using (reads_many_one_iff.mp hbody).1 c hc
  · obtain ⟨opening, _, rfl, hopening, h⟩ := Reads.seq_of_groupNames h rfl
    obtain ⟨body, _, rfl, hbody, h⟩ := Reads.seq_of_groupNames h rfl
    obtain ⟨closing, _, rfl, hclosing, rfl, -⟩ := Reads.seq_of_groupNames h rfl
    obtain ⟨rfl, -⟩ := reads_lit.mp hopening
    obtain ⟨rfl, -⟩ := reads_lit.mp hclosing
    refine ⟨'"', body, Or.inr rfl, rfl, fun c hc => ?_⟩
    simpa using (reads_many_one_iff.mp hbody).1 c hc

/-- Marks with blanks in front of each, of which there is at least one. -/
theorem exists_of_reads_marks {mark : String}
    (h : (oneOrMore (Pattern.sequence [blanks, lit mark])).Reads before word rest groups) :
    ∃ gap more, word = gap ++ (mark.toList ++ more) ∧ IsBlank gap ∧
      ∀ c ∈ more, c ∈ mark.toList ∨ c = ' ' ∨ c = '\t' := by
  obtain ⟨_, more, _, _, rfl, -, hround, hmore⟩ := h
  obtain ⟨gap, _, _, _, rfl, -, hgap, hmark⟩ := hround
  obtain ⟨_, _, _, _, rfl, -, hmark, rfl, -⟩ := hmark
  obtain ⟨rfl, -⟩ := reads_lit.mp hmark
  refine ⟨gap, more, by simp, isBlank_of_reads hgap, ?_⟩
  refine hmore.forall_mem ?_
  rw [OnlyReads]
  simp
  tauto

end Reading

variable {m : Match} {replacement : List Char}

/-! ## Rules for every code -/

/-- Two commas or more become one. -/
theorem duplicateComma_shape (hm : m.Of duplicateComma.pattern)
    (h : duplicateComma.fixer.bind (· m) = some replacement) :
    ∃ gap more, m.text = ',' :: (gap ++ ',' :: more) ∧ IsBlank gap ∧
      (∀ c ∈ more, c = ',' ∨ c = ' ' ∨ c = '\t') ∧ replacement = [','] := by
  obtain ⟨first, _, htext, hfirst, hm⟩ := Reads.seq_of_groupNames hm rfl
  obtain ⟨marks, _, rfl, hmarks, rfl, -⟩ := Reads.seq_of_groupNames hm rfl
  obtain ⟨rfl, -⟩ := reads_lit.mp hfirst
  obtain ⟨gap, more, rfl, hgap, hmore⟩ := exists_of_reads_marks hmarks
  refine ⟨gap, more, by simpa using htext, hgap, ?_, (Option.some.inj h).symm⟩
  simpa using hmore

/-- Two semicolons or more become one. -/
theorem duplicateSemicolon_shape (hm : m.Of duplicateSemicolon.pattern)
    (h : duplicateSemicolon.fixer.bind (· m) = some replacement) :
    ∃ gap more, m.text = ';' :: (gap ++ ';' :: more) ∧ IsBlank gap ∧
      (∀ c ∈ more, c = ';' ∨ c = ' ' ∨ c = '\t') ∧ replacement = [';'] := by
  obtain ⟨first, _, htext, hfirst, hm⟩ := Reads.seq_of_groupNames hm rfl
  obtain ⟨marks, _, rfl, hmarks, hm⟩ := Reads.seq_of_groupNames hm rfl
  obtain ⟨trailing, _, rfl, htrailing, hm⟩ := Reads.seq_of_groupNames hm rfl
  obtain ⟨_, _, rfl, ⟨rfl, -, -⟩, rfl, -⟩ := Reads.seq_of_groupNames hm rfl
  obtain ⟨rfl, -⟩ := reads_lit.mp hfirst
  obtain ⟨gap, more, rfl, hgap, hmore⟩ := exists_of_reads_marks hmarks
  have htrailing := isBlank_of_reads htrailing
  refine ⟨gap, more ++ trailing, by simpa using htext, hgap, ?_, (Option.some.inj h).symm⟩
  intro c hc
  rcases List.mem_append.mp hc with hc | hc
  · simpa using hmore c hc
  · exact Or.inr (htrailing c hc)

/-! ## A comma at the end of an import or export -/

/-- A comma with blanks around it, up to the end of the line. -/
theorem exists_of_reads_trailingComma {before word rest : List Char} {groups : Captures}
    (h : (Pattern.sequence [blanks, lit ",", blanks, lineEnd]).Reads before word rest groups) :
    ∃ front back, word = front ++ ',' :: back ∧ IsBlank front ∧ IsBlank back := by
  obtain ⟨front, _, rfl, hfront, h⟩ := Reads.seq_of_groupNames h rfl
  obtain ⟨comma, _, rfl, hcomma, h⟩ := Reads.seq_of_groupNames h rfl
  obtain ⟨back, _, rfl, hback, h⟩ := Reads.seq_of_groupNames h rfl
  obtain ⟨_, _, rfl, ⟨rfl, -, -⟩, rfl, -⟩ := Reads.seq_of_groupNames h rfl
  obtain ⟨rfl, -⟩ := reads_lit.mp hcomma
  exact ⟨front, back, by simp, isBlank_of_reads hfront, isBlank_of_reads hback⟩

/-- A match that starts with a group and goes on with a comma is the group and the comma, and the
fix puts a semicolon behind the group. -/
theorem semicolonAfter_shape {name : String} {body : Pattern}
    (hm : m.Of (seq (group name body) (Pattern.sequence [blanks, lit ",", blanks, lineEnd])))
    (hbody : body.groupNames = []) (h : semicolonAfter name m = some replacement) :
    ∃ head front back before' rest', m.text = head ++ (front ++ ',' :: back) ∧
      IsBlank front ∧ IsBlank back ∧ body.Reads before' head rest' [] ∧
      replacement = head ++ [';'] := by
  obtain ⟨head, _, late, htext, hgroups, hlate, hhead, hm⟩ := hm.group_seq hbody List.not_mem_nil
  obtain ⟨front, back, rfl, hfront, hback⟩ := exists_of_reads_trailingComma hm
  have hgroup : m.group name = head := Match.group_eq_of_groups hgroups hlate
  refine ⟨head, front, back, _, _, htext, hfront, hback, hhead, ?_⟩
  rw [← hgroup]
  exact (Option.some.inj h).symm

/-- An import keeps all up to the quote that closes its module name, and a semicolon takes the place
of the comma behind it. -/
theorem importTrailingComma_shape (hm : m.Of importTrailingComma.pattern)
    (h : importTrailingComma.fixer.bind (· m) = some replacement) :
    ∃ head quote front back, m.text = (head ++ [quote]) ++ (front ++ ',' :: back) ∧
      (quote = '\'' ∨ quote = '"') ∧ IsBlank front ∧ IsBlank back ∧
      replacement = (head ++ [quote]) ++ [';'] := by
  obtain ⟨_, front, back, _, _, htext, hfront, hback, hhead, rfl⟩ := semicolonAfter_shape hm rfl h
  obtain ⟨brace, _, rfl, -, hhead⟩ := Reads.seq_of_groupNames hhead rfl
  obtain ⟨gap, _, rfl, -, hhead⟩ := Reads.seq_of_groupNames hhead rfl
  obtain ⟨word, _, rfl, -, hhead⟩ := Reads.seq_of_groupNames hhead rfl
  obtain ⟨gap', _, rfl, -, hhead⟩ := Reads.seq_of_groupNames hhead rfl
  obtain ⟨_, _, rfl, hkey, rfl, -⟩ := Reads.seq_of_groupNames hhead rfl
  obtain ⟨quote, body, hquote, rfl, -⟩ := exists_of_reads_quotedKey hkey
  refine ⟨brace ++ (gap ++ (word ++ (gap' ++ quote :: body))), quote, front, back, ?_, hquote,
    hfront, hback, ?_⟩
  · simpa using htext
  · simp

/-- An export list keeps all up to its closing brace, and a semicolon takes the place of the comma
behind it. -/
theorem exportListTrailingComma_shape (hm : m.Of exportListTrailingComma.pattern)
    (h : exportListTrailingComma.fixer.bind (· m) = some replacement) :
    ∃ head front back, m.text = (head ++ ['\x7d']) ++ (front ++ ',' :: back) ∧
      IsBlank front ∧ IsBlank back ∧ replacement = (head ++ ['\x7d']) ++ [';'] := by
  obtain ⟨_, front, back, _, _, htext, hfront, hback, hhead, rfl⟩ :=
    semicolonAfter_shape (Reads.of_assertion hm) rfl h
  obtain ⟨indent, _, rfl, -, hhead⟩ := Reads.seq_of_groupNames hhead rfl
  obtain ⟨word, _, rfl, -, hhead⟩ := Reads.seq_of_groupNames hhead rfl
  obtain ⟨gap, _, rfl, -, hhead⟩ := Reads.seq_of_groupNames hhead rfl
  obtain ⟨opening, _, rfl, -, hhead⟩ := Reads.seq_of_groupNames hhead rfl
  obtain ⟨names, _, rfl, -, hhead⟩ := Reads.seq_of_groupNames hhead rfl
  obtain ⟨_, _, rfl, hclosing, rfl, -⟩ := Reads.seq_of_groupNames hhead rfl
  obtain ⟨rfl, -⟩ := reads_lit.mp hclosing
  refine ⟨indent ++ (word ++ (gap ++ (opening ++ names))), front, back, ?_, hfront, hback, ?_⟩
  · simpa using htext
  · simp

/-! ## Loops, braces and quotes -/

/-- A loop variable keeps its keyword and name and gets the value zero. -/
theorem emptyForInitializer_shape (hm : m.Of emptyForInitializer.pattern)
    (h : emptyForInitializer.fixer.bind (· m) = some replacement) :
    ∃ gap₁ gap₂ keyword gap₃ name gap₄ gap₅,
      m.text = "for".toList ++ gap₁ ++ ['('] ++ gap₂ ++ keyword ++ gap₃ ++ name ++ gap₄ ++ ['=']
        ++ gap₅ ++ [';'] ∧
      IsBlank gap₁ ∧ IsBlank gap₂ ∧ IsBlank gap₃ ∧ IsBlank gap₄ ∧ IsBlank gap₅ ∧
      (keyword = "let".toList ∨ keyword = "var".toList) ∧
      (∀ c ∈ name, isWord c = true ∨ c = '$') ∧
      replacement = "for (".toList ++ keyword ++ [' '] ++ name ++ " = 0;".toList := by
  obtain ⟨word, _, htext, hword, hm⟩ := Reads.seq_of_groupNames hm rfl
  obtain ⟨gap₁, _, rfl, hgap₁, hm⟩ := Reads.seq_of_groupNames hm rfl
  obtain ⟨opening, _, rfl, hopening, hm⟩ := Reads.seq_of_groupNames hm rfl
  obtain ⟨gap₂, _, rfl, hgap₂, hm⟩ := Reads.seq_of_groupNames hm rfl
  obtain ⟨keyword, _, late₁, rfl, hgroups, -, hkeyword, hm⟩ := Reads.group_seq hm rfl (by decide)
  obtain ⟨gap₃, _, rfl, hgap₃, hm⟩ := Reads.seq_of_groupNames hm rfl
  obtain ⟨name, _, late₂, rfl, rfl, -, hname, hm⟩ := Reads.group_seq hm rfl (by decide)
  obtain ⟨gap₄, _, rfl, hgap₄, hm⟩ := Reads.seq_of_groupNames hm rfl
  obtain ⟨equals, _, rfl, hequals, hm⟩ := Reads.seq_of_groupNames hm rfl
  obtain ⟨gap₅, _, rfl, hgap₅, hm⟩ := Reads.seq_of_groupNames hm rfl
  obtain ⟨semicolon, _, rfl, hsemicolon, rfl, rfl⟩ := Reads.seq_of_groupNames hm rfl
  obtain ⟨rfl, -⟩ := reads_lit.mp hword
  obtain ⟨rfl, -⟩ := reads_lit.mp hopening
  obtain ⟨rfl, -⟩ := reads_lit.mp hequals
  obtain ⟨rfl, -⟩ := reads_lit.mp hsemicolon
  have hkeyword : keyword = "let".toList ∨ keyword = "var".toList :=
    hkeyword.imp (fun h => (reads_lit.mp h).1) fun h => (reads_lit.mp h).1
  have hname : ∀ c ∈ name, isWord c = true ∨ c = '$' :=
    hname.forall_mem (by simp [OnlyReads, nameChar])
  have hgap₃ : IsBlank gap₃ := hgap₃.forall_mem (by simp)
  refine ⟨gap₁, gap₂, keyword, gap₃, name, gap₄, gap₅, ?_, isBlank_of_reads hgap₁,
    isBlank_of_reads hgap₂, hgap₃, isBlank_of_reads hgap₄, isBlank_of_reads hgap₅, hkeyword, hname,
    ?_⟩
  · rw [htext]
    simp
  · have hkw : m.group "kw" = keyword := by rw [Match.group, Match.group?, hgroups]; rfl
    have hnm : m.group "name" = name := by rw [Match.group, Match.group?, hgroups]; rfl
    rw [← hkw, ← hnm]
    exact (Option.some.inj h).symm

/-- An opening brace loses the comma behind it, and keeps one blank if there was one. -/
theorem braceLeadingComma_shape (hm : m.Of braceLeadingComma.pattern)
    (h : braceLeadingComma.fixer.bind (· m) = some replacement) :
    ∃ front back, m.text = '\x7b' :: (front ++ ',' :: back) ∧ IsBlank front ∧ IsBlank back ∧
      (replacement = ['\x7b'] ∨ replacement = ['\x7b', ' ']) := by
  obtain ⟨brace, _, htext, hbrace, hm⟩ := Reads.seq_of_groupNames hm rfl
  obtain ⟨front, _, rfl, hfront, hm⟩ := Reads.seq_of_groupNames hm rfl
  obtain ⟨comma, _, rfl, hcomma, hm⟩ := Reads.seq_of_groupNames hm rfl
  obtain ⟨back, _, _, rfl, -, -, hback, rfl, -⟩ := Reads.group_seq hm rfl (by decide)
  obtain ⟨rfl, -⟩ := reads_lit.mp hbrace
  obtain ⟨rfl, -⟩ := reads_lit.mp hcomma
  obtain rfl := Option.some.inj h
  refine ⟨front, back, by simpa using htext, isBlank_of_reads hfront, isBlank_of_reads hback, ?_⟩
  by_cases hgap : m.group "gap" = []
  · exact Or.inl (if_pos hgap)
  · exact Or.inr (if_neg hgap)

/-- One of the four curly quotes. -/
def IsCurly (c : Char) : Prop :=
  c ∈ "\u2018\u2019\u201C\u201D".toList

/-- A captured body between two marks. -/
theorem exists_of_reads_delimited {marks excluded name : String} {before word rest : List Char}
    {groups : Captures}
    (h : (Pattern.sequence [oneOf marks, group name (many (noneOf excluded)), oneOf marks]).Reads
      before word rest groups) :
    ∃ opening body closing, word = opening :: (body ++ [closing]) ∧ groups = [(name, body)] ∧
      opening ∈ marks.toList ∧ closing ∈ marks.toList ∧ ∀ c ∈ body, c ∉ excluded.toList := by
  obtain ⟨_, _, rfl, hopening, h⟩ := Reads.seq_of_groupNames h rfl
  obtain ⟨body, _, _, rfl, rfl, -, hbody, h⟩ := Reads.group_seq h rfl List.not_mem_nil
  obtain ⟨_, _, rfl, hclosing, rfl, rfl⟩ := Reads.seq_of_groupNames h rfl
  obtain ⟨opening, rfl, hfirst⟩ := exists_of_reads_one hopening
  obtain ⟨closing, rfl, hlast⟩ := exists_of_reads_one hclosing
  refine ⟨opening, body, closing, by simp, rfl, List.contains_iff_mem.mp hfirst,
    List.contains_iff_mem.mp hlast, fun c hc => ?_⟩
  simpa using (reads_many_one_iff.mp hbody).1 c hc

/-- A text in curly quotes keeps its body and gets straight quotes. -/
theorem smartQuotes_shape (hm : m.Of smartQuotes.pattern)
    (h : smartQuotes.fixer.bind (· m) = some replacement) :
    ∃ opening body closing quote, m.text = opening :: (body ++ [closing]) ∧
      IsCurly opening ∧ IsCurly closing ∧ (quote = '\'' ∨ quote = '"') ∧
      (∀ c ∈ body, c ≠ quote ∧ c ≠ closing ∧ c ≠ '\n') ∧
      replacement = quote :: (body ++ [quote]) := by
  replace h : straightenQuotes m = some replacement := h
  rcases hm with hm | hm
  · obtain ⟨opening, body, closing, htext, hgroups, hopening, hclosing, hbody⟩ :=
      exists_of_reads_delimited hm
    have hsingle : m.group? "single" = some body := by rw [Match.group?, hgroups]; rfl
    rw [straightenQuotes, hsingle] at h
    have hmem : ∀ c ∈ "\u2018\u2019".toList, IsCurly c ∧ c ∈ "\u2018\u2019'\n".toList := by
      simp [IsCurly]
    refine ⟨opening, body, closing, '\'', htext, (hmem _ hopening).1, (hmem _ hclosing).1,
      Or.inl rfl, ?_, (Option.some.inj h).symm⟩
    intro c hc
    refine ⟨?_, ?_, ?_⟩ <;> rintro rfl
    · exact hbody _ hc (by decide)
    · exact hbody _ hc (hmem _ hclosing).2
    · exact hbody _ hc (by decide)
  · obtain ⟨opening, body, closing, htext, hgroups, hopening, hclosing, hbody⟩ :=
      exists_of_reads_delimited hm
    have hsingle : m.group? "single" = none := by rw [Match.group?, hgroups]; rfl
    have hdouble : m.group? "double" = some body := by rw [Match.group?, hgroups]; rfl
    rw [straightenQuotes, hsingle, hdouble] at h
    have hmem : ∀ c ∈ "\u201C\u201D".toList, IsCurly c ∧ c ∈ "\u201C\u201D\"\n".toList := by
      simp [IsCurly]
    refine ⟨opening, body, closing, '"', htext, (hmem _ hopening).1, (hmem _ hclosing).1,
      Or.inr rfl, ?_, (Option.some.inj h).symm⟩
    intro c hc
    refine ⟨?_, ?_, ?_⟩ <;> rintro rfl
    · exact hbody _ hc (by decide)
    · exact hbody _ hc (hmem _ hclosing).2
    · exact hbody _ hc (by decide)

/-! ## Destructuring that binds nothing -/

/-- Empty braces or brackets. -/
def IsEmptyBinding (text : List Char) : Prop :=
  ∃ gap, IsBlank gap ∧ (text = '\x7b' :: (gap ++ ['\x7d']) ∨ text = '[' :: (gap ++ [']']))

/-- One of two delimiters, blanks, and the other one. -/
theorem exists_of_reads_enclosed {opening closing : String} {before word rest : List Char}
    {groups : Captures}
    (h : (Pattern.sequence [lit opening, blanks, lit closing]).Reads before word rest groups) :
    ∃ gap, word = opening.toList ++ (gap ++ closing.toList) ∧ IsBlank gap := by
  obtain ⟨_, _, _, _, rfl, -, hopening, h⟩ := h
  obtain ⟨gap, _, _, _, rfl, -, hgap, h⟩ := h
  obtain ⟨_, _, _, _, rfl, -, hclosing, rfl, -⟩ := h
  obtain ⟨rfl, -⟩ := reads_lit.mp hopening
  obtain ⟨rfl, -⟩ := reads_lit.mp hclosing
  exact ⟨gap, by simp, isBlank_of_reads hgap⟩

theorem reads_enclosed {opening closing : String} {before gap rest : List Char}
    (hgap : IsBlank gap) :
    (Pattern.sequence [lit opening, blanks, lit closing]).Reads before
      (opening.toList ++ (gap ++ (closing.toList ++ []))) rest [] :=
  reads_lit_seq (reads_seq_nil (reads_blanks hgap) (reads_lit_seq ⟨rfl, rfl⟩))

/-- The words and brackets of a destructuring that binds nothing, up to its right-hand side. -/
def IsDestructuringHead (text : List Char) : Prop :=
  ∃ indent keyword gap₁ binding gap₂ gap₃,
    text = indent ++ keyword ++ gap₁ ++ binding ++ gap₂ ++ ['='] ++ gap₃ ∧
    IsBlank indent ∧ IsBlank gap₁ ∧ IsBlank gap₂ ∧ IsBlank gap₃ ∧
    (keyword = "const".toList ∨ keyword = "let".toList ∨ keyword = "var".toList) ∧
    IsEmptyBinding binding

/-- A destructuring that binds nothing is one, whatever stands on the right-hand side. -/
theorem exists_reads_emptyDestructuring {before head line rest : List Char} {c : Char}
    (hhead : IsDestructuringHead head) (hc : isWhite c = false)
    (hline : ∀ d ∈ line, d ≠ '\r' ∧ d ≠ '\n')
    (hstart : Assertion.lineStart.holds before (head ++ c :: line ++ rest) = true)
    (hend : Assertion.lineEnd.holds ((head ++ c :: line).reverse ++ before) rest = true) :
    ∃ groups, emptyDestructuring.pattern.Reads before (head ++ c :: line) rest groups := by
  obtain ⟨indent, keyword, gap₁, binding, gap₂, gap₃, rfl, hindent, hgap₁, hgap₂, hgap₃, hkeyword,
    hbinding⟩ := hhead
  have hkeyword : ∀ {before rest}, declarationWord.Reads before keyword rest [] := by
    rcases hkeyword with rfl | rfl | rfl
    · exact Or.inl (reads_lit.mpr ⟨rfl, rfl⟩)
    · exact Or.inr (Or.inl (reads_lit.mpr ⟨rfl, rfl⟩))
    · exact Or.inr (Or.inr (reads_lit.mpr ⟨rfl, rfl⟩))
  have hbinding : ∀ {before rest}, (alt (Pattern.sequence [lit "\x7b", blanks, lit "\x7d"])
      (Pattern.sequence [lit "[", blanks, lit "]"])).Reads before binding rest [] := by
    obtain ⟨gap, hgap, rfl | rfl⟩ := hbinding
    · exact Or.inl (reads_enclosed hgap)
    · exact Or.inr (reads_enclosed hgap)
  have hexpression : ∀ {before rest}, (Pattern.sequence [visible, many inLine]).Reads before
      ([c] ++ (line ++ [])) rest [] := by
    intro before rest
    refine reads_seq_nil ⟨c, by simp [hc], rfl, rfl⟩
      (reads_seq_nil (reads_many fun d hd => ?_) ⟨rfl, rfl⟩)
    simpa using hline d hd
  have hword : indent ++ keyword ++ gap₁ ++ binding ++ gap₂ ++ ['='] ++ gap₃ ++ c :: line
      = [] ++ (indent ++ (keyword ++ (gap₁ ++ (binding ++ (gap₂ ++ (['='] ++ (gap₃ ++
          (([c] ++ (line ++ [])) ++ ([] ++ []))))))))) := by simp
  rw [hword] at hstart hend ⊢
  refine ⟨_, reads_seq ⟨rfl, rfl, hstart⟩ (reads_seq ⟨_, rfl, reads_blanks hindent⟩
    (reads_seq hkeyword (reads_seq (reads_blanks hgap₁) (reads_seq hbinding
    (reads_seq (reads_blanks hgap₂) (reads_lit_seq
    (reads_seq (reads_blanks hgap₃) (reads_seq ⟨_, rfl, hexpression⟩
    (reads_seq ⟨rfl, rfl, ?_⟩ ⟨rfl, rfl⟩)))))))))⟩
  simpa using hend

/-- A destructuring that binds nothing keeps its indentation and its right-hand side. -/
theorem emptyDestructuring_shape (hm : m.Of emptyDestructuring.pattern)
    (h : emptyDestructuring.fixer.bind (· m) = some replacement) :
    ∃ indent keyword gap₁ binding gap₂ gap₃ expression,
      m.text = indent ++ (keyword ++ gap₁ ++ binding ++ gap₂ ++ ['='] ++ gap₃ ++ expression) ∧
      IsBlank indent ∧ IsBlank gap₁ ∧ IsBlank gap₂ ∧ IsBlank gap₃ ∧
      (keyword = "const".toList ∨ keyword = "let".toList ∨ keyword = "var".toList) ∧
      IsEmptyBinding binding ∧ (∀ c ∈ expression.head?, isWhite c = false) ∧
      expression ≠ [] ∧ replacement = indent ++ expression := by
  obtain ⟨indent, _, late₁, htext, hgroups, -, hindent, hm⟩ :=
    Reads.group_seq (Reads.of_assertion hm) rfl (by decide)
  obtain ⟨keyword, _, rfl, hkeyword, hm⟩ := Reads.seq_of_groupNames hm rfl
  obtain ⟨gap₁, _, rfl, hgap₁, hm⟩ := Reads.seq_of_groupNames hm rfl
  obtain ⟨binding, _, rfl, hbinding, hm⟩ := Reads.seq_of_groupNames hm rfl
  obtain ⟨gap₂, _, rfl, hgap₂, hm⟩ := Reads.seq_of_groupNames hm rfl
  obtain ⟨equals, _, rfl, hequals, hm⟩ := Reads.seq_of_groupNames hm rfl
  obtain ⟨gap₃, _, rfl, hgap₃, hm⟩ := Reads.seq_of_groupNames hm rfl
  obtain ⟨expression, _, late₂, rfl, rfl, -, hexpression, hm⟩ := Reads.group_seq hm rfl (by decide)
  obtain ⟨_, _, rfl, ⟨rfl, -, -⟩, rfl, rfl⟩ := Reads.seq_of_groupNames hm rfl
  obtain ⟨rfl, -⟩ := reads_lit.mp hequals
  obtain ⟨_, tail, rfl, hvisible, -⟩ := Reads.seq_of_groupNames hexpression rfl
  obtain ⟨first, rfl, hfirst⟩ := exists_of_reads_one hvisible
  have hkeyword : keyword = "const".toList ∨ keyword = "let".toList ∨ keyword = "var".toList :=
    hkeyword.imp (fun h => (reads_lit.mp h).1)
      (Or.imp (fun h => (reads_lit.mp h).1) fun h => (reads_lit.mp h).1)
  have hbinding : IsEmptyBinding binding := by
    rcases hbinding with h | h
    · obtain ⟨gap, rfl, hgap⟩ := exists_of_reads_enclosed h
      exact ⟨gap, hgap, Or.inl rfl⟩
    · obtain ⟨gap, rfl, hgap⟩ := exists_of_reads_enclosed h
      exact ⟨gap, hgap, Or.inr rfl⟩
  refine ⟨indent, keyword, gap₁, binding, gap₂, gap₃, [first] ++ tail, ?_,
    isBlank_of_reads hindent, isBlank_of_reads hgap₁, isBlank_of_reads hgap₂,
    isBlank_of_reads hgap₃, hkeyword, hbinding, ?_, by simp, ?_⟩
  · rw [htext]
    simp
  · simpa using hfirst
  · have hin : m.group "indent" = indent := by rw [Match.group, Match.group?, hgroups]; rfl
    have hex : m.group "expr" = [first] ++ tail := by rw [Match.group, Match.group?, hgroups]; rfl
    rw [← hin, ← hex]
    exact (Option.some.inj h).symm

end SourceRepair.TypeScript
