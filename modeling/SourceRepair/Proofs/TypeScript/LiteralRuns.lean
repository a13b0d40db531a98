import SourceRepair.Proofs.Literal.Coverage
import SourceRepair.Proofs.Scan.Computed
import SourceRepair.Proofs.TypeScript.Shapes
import SourceRepair.Proofs.TypeScript.StaticRules

/-!
# What fixes keep of literals

A scan only drops matches that start inside a literal or comment. A match that starts in code may
run into one, and then the fix has to keep what it finds there. `literalRuns_appear` says how far
the static rules do: all that a match holds of literals and comments comes back in its fix, piece by
piece and in order, apart from what a fix gives up by its nature. Straightened quotes give up the
curly quote at the end, and an import or an export list the comma at the end and the blanks around
it; either may stand inside a literal (`literalRuns_not_kept`).

Most rules hold no literal at all in their matches, since all that they read is code wherever it
starts. The other ones keep in one piece all of the match that can lie in literals.
-/

namespace SourceRepair

open Text

/-! ## Runs of literal text -/

/-- The run of covered characters at the start of a text that stands at `pos`, and the runs behind
it. All bytes of a character are covered alike (`LiteralSpans.covers_char`). -/
def runsFrom (spans : List Span) (pos : Nat) : List Char → List Char × List (List Char)
  | [] => ([], [])
  | c :: rest =>
    let (first, more) := runsFrom spans (pos + c.utf8Size) rest
    if Span.covers spans pos then (c :: first, more)
    else ([], if first = [] then more else first :: more)

/-- The longest runs of covered characters in a text that stands at `pos`, from left to right. -/
def literalRuns (spans : List Span) (pos : Nat) (text : List Char) : List (List Char) :=
  let (first, more) := runsFrom spans pos text
  if first = [] then more else first :: more

/-- The texts stand in the last one, each in one piece, one behind the other. -/
inductive AppearInOrder : List (List Char) → List Char → Prop
  | nil (text : List Char) : AppearInOrder [] text
  | cons {run : List Char} {more : List (List Char)} {text : List Char} (gap after : List Char)
      (htext : text = gap ++ (run ++ after)) (hmore : AppearInOrder more after) :
      AppearInOrder (run :: more) text

namespace AppearInOrder

variable {runs : List (List Char)} {text : List Char}

theorem append_left (front : List Char) (h : AppearInOrder runs text) :
    AppearInOrder runs (front ++ text) := by
  cases h with
  | nil => exact .nil _
  | cons gap after htext hmore =>
    exact .cons (front ++ gap) after (by rw [htext, List.append_assoc]) hmore

theorem append_right (back : List Char) (h : AppearInOrder runs text) :
    AppearInOrder runs (text ++ back) := by
  induction h with
  | nil => exact .nil _
  | cons gap after htext _ ih =>
    exact .cons gap (after ++ back) (by rw [htext]; simp only [List.append_assoc]) ih

end AppearInOrder

variable {spans : List Span} {pos : Nat}

/-- The runs of a text stand in it: the one at its start, and the other ones behind that. -/
theorem runsFrom_appearInOrder (spans : List Span) (pos : Nat) (text : List Char) :
    ∃ after, text = (runsFrom spans pos text).1 ++ after ∧
      AppearInOrder (runsFrom spans pos text).2 after := by
  induction text generalizing pos with
  | nil => exact ⟨[], rfl, .nil []⟩
  | cons c rest ih =>
    obtain ⟨after, hrest, hmore⟩ := ih (pos + c.utf8Size)
    rw [runsFrom]
    by_cases hcovers : Span.covers spans pos = true
    · refine ⟨after, ?_, ?_⟩
      · simp only [if_pos hcovers, List.cons_append]
        rw [← hrest]
      · simpa only [if_pos hcovers] using hmore
    · refine ⟨c :: rest, ?_, ?_⟩
      · simp only [if_neg hcovers, List.nil_append]
      · simp only [if_neg hcovers]
        split
        · rename_i hnil
          have hafter : rest = after := by simpa only [hnil, List.nil_append] using hrest
          rw [← hafter] at hmore
          exact hmore.append_left [c]
        · exact .cons [c] after (by rw [List.singleton_append, ← hrest]) hmore

/-- The runs of a text stand in it in order. -/
theorem literalRuns_appearInOrder (spans : List Span) (pos : Nat) (text : List Char) :
    AppearInOrder (literalRuns spans pos text) text := by
  obtain ⟨after, htext, hmore⟩ := runsFrom_appearInOrder spans pos text
  rw [literalRuns]
  simp only
  split
  · rename_i hnil
    have hafter : text = after := by simpa only [hnil, List.nil_append] using htext
    rwa [← hafter] at hmore
  · exact .cons [] after htext hmore

/-- Text that is not covered adds no run. -/
theorem literalRuns_append_of_uncovered {front : List Char} (text : List Char)
    (h : ∀ offset, pos ≤ offset → offset < pos + utf8Size front →
      Span.covers spans offset = false) :
    literalRuns spans pos (front ++ text) = literalRuns spans (pos + utf8Size front) text := by
  induction front generalizing pos with
  | nil => rfl
  | cons c rest ih =>
    have hsize := Char.utf8Size_pos c
    rw [utf8Size_cons] at h ⊢
    have hfirst : Span.covers spans pos = false := h pos (Nat.le_refl pos) (by omega)
    have hrest : literalRuns spans (pos + c.utf8Size) (rest ++ text)
        = literalRuns spans (pos + c.utf8Size + utf8Size rest) text :=
      ih fun offset hlow hhigh => h offset (by omega) (by omega)
    rw [← Nat.add_assoc, ← hrest, List.cons_append, literalRuns, runsFrom]
    simp [hfirst, literalRuns]

/-- Text that begins in code where it stands and goes on in code adds no run, so that all runs are
kept wherever the rest is kept in one piece. -/
theorem literalRuns_appear_of_startsInCode {text before front body after : List Char}
    (htext : text = before ++ (front ++ (body ++ after)))
    (hstart : Span.covers (literalSpans text) (utf8Size before) = false)
    (hfront : LiteralSpans.StartsInCode front) (left right : List Char) :
    AppearInOrder (literalRuns (literalSpans text) (utf8Size before) (front ++ body))
      (left ++ (body ++ right)) := by
  rw [literalRuns_append_of_uncovered body fun offset hlow hhigh =>
    hfront.covers_eq_false htext hstart hlow hhigh]
  exact ((literalRuns_appearInOrder _ _ body).append_right right).append_left left

namespace TypeScript

open CharClass LiteralSpans

/-! ## Text that is code -/

theorem not_mem_of_isBlank {c : Char} (h : c = ' ' ∨ c = '\t') : c ∉ openers ∧ c ∉ marks := by
  rcases h with rfl | rfl <;> decide

/-- Blanks are code. -/
theorem readsCode_of_isBlank {gap : List Char} (h : IsBlank gap) : ReadsCode gap :=
  ReadsCode.of_forall fun c hc => (not_mem_of_isBlank (h c hc)).2

/-- Names are code. -/
theorem readsCode_of_name {name : List Char} (h : ∀ c ∈ name, isWord c = true ∨ c = '$') :
    ReadsCode name := by
  refine ReadsCode.of_forall fun c hc hmark => absurd (h c hc) ?_
  simp only [marks, List.mem_cons, List.not_mem_nil, or_false] at hmark
  rcases hmark with rfl | rfl | rfl | rfl | rfl | rfl <;> decide

/-! ## Rule by rule -/

/-- The part of a match that keeps its literals in the fix: smart quotes give up the quote at the
end, and imports and export lists what stands behind their module name or brace. -/
def keptPart (rule : String) (matched : List Char) : List Char :=
  if rule = "smart-quotes" then matched.dropLast
  else if rule = "import-trailing-comma" ∨ rule = "export-list-trailing-comma" then
    matched.rdropWhile fun c => c == ',' || c == ' ' || c == '\t'
  else matched

/-- All runs of literal text in the part of the match that is kept appear in the replacement. -/
def KeepsLiterals (rule : Rule) : Prop :=
  ∀ (text before after : List Char) (m : Match) (replacement : List Char),
    text = before ++ (m.text ++ after) →
    Span.covers (literalSpans text) (utf8Size before) = false →
    m.Of rule.pattern → rule.fixer.bind (· m) = some replacement →
    AppearInOrder (literalRuns (literalSpans text) (utf8Size before) (keptPart rule.name m.text))
      replacement

/-- A rule whose matches begin with code and go on with a text that the fix has in one piece. -/
theorem keepsLiterals_of_startsInCode {rule : Rule}
    (hshape : ∀ m replacement, Match.Of rule.pattern m →
      rule.fixer.bind (· m) = some replacement → ∃ front body last left right,
        m.text = front ++ (body ++ last) ∧ keptPart rule.name m.text = front ++ body ∧
        StartsInCode front ∧ replacement = left ++ (body ++ right)) : KeepsLiterals rule := by
  intro text before after m replacement htext hstart hm hfix
  obtain ⟨front, body, last, left, right, hmatch, hkept, hfront, rfl⟩ :=
    hshape m replacement hm hfix
  rw [hkept]
  have hplace : text = before ++ (front ++ (body ++ (last ++ after))) := by
    rw [htext, hmatch]
    simp only [List.append_assoc]
  exact literalRuns_appear_of_startsInCode hplace hstart hfront left right

/-- A rule whose matches are all code where they begin in code. -/
theorem keepsLiterals_of_code {rule : Rule}
    (hname : ∀ matched, keptPart rule.name matched = matched)
    (hcode : ∀ m replacement, Match.Of rule.pattern m → rule.fixer.bind (· m) = some replacement →
      StartsInCode m.text) : KeepsLiterals rule := by
  refine keepsLiterals_of_startsInCode fun m replacement hm hfix => ?_
  refine ⟨m.text, [], [], [], replacement, ?_, ?_, hcode m replacement hm hfix, rfl⟩
  · rw [List.append_nil, List.append_nil]
  · rw [hname, List.append_nil]

/-- Marks with blanks between them are code. -/
theorem startsInCode_of_marks {mark : Char} (hmark : mark ∉ openers ∧ mark ∉ marks)
    {gap more : List Char} (hgap : IsBlank gap)
    (hmore : ∀ c ∈ more, c = mark ∨ c = ' ' ∨ c = '\t') :
    StartsInCode (mark :: (gap ++ mark :: more)) := by
  have hrest : ReadsCode (mark :: more) := by
    refine ReadsCode.of_forall fun c hc => ?_
    rcases List.mem_cons.mp hc with rfl | hc
    · exact hmark.2
    · rcases hmore c hc with rfl | hblank
      · exact hmark.2
      · exact (not_mem_of_isBlank hblank).2
  exact ⟨mark, _, rfl, hmark.1, (readsCode_of_isBlank hgap).append hrest⟩

theorem keepsLiterals_duplicateComma : KeepsLiterals duplicateComma := by
  refine keepsLiterals_of_code (fun _ => rfl) fun m replacement hm hfix => ?_
  obtain ⟨gap, more, htext, hgap, hmore, -⟩ := duplicateComma_shape hm hfix
  rw [htext]
  exact startsInCode_of_marks (by decide) hgap hmore

theorem keepsLiterals_duplicateSemicolon : KeepsLiterals duplicateSemicolon := by
  refine keepsLiterals_of_code (fun _ => rfl) fun m replacement hm hfix => ?_
  obtain ⟨gap, more, htext, hgap, hmore, -⟩ := duplicateSemicolon_shape hm hfix
  rw [htext]
  exact startsInCode_of_marks (by decide) hgap hmore

theorem keepsLiterals_braceLeadingComma : KeepsLiterals braceLeadingComma := by
  refine keepsLiterals_of_code (fun _ => rfl) fun m replacement hm hfix => ?_
  obtain ⟨front, back, htext, hfront, hback, -⟩ := braceLeadingComma_shape hm hfix
  have hcomma : ReadsCode (',' :: back) :=
    (ReadsCode.singleton (by decide)).append (readsCode_of_isBlank hback)
  -- the brace may be the one that opens a template hole, behind which there is code as well
  exact ⟨'{', _, htext, by decide, (readsCode_of_isBlank hfront).append hcomma⟩

theorem keepsLiterals_emptyForInitializer : KeepsLiterals emptyForInitializer := by
  refine keepsLiterals_of_code (fun _ => rfl) fun m replacement hm hfix => ?_
  obtain ⟨gap₁, gap₂, keyword, gap₃, name, gap₄, gap₅, htext, hgap₁, hgap₂, hgap₃, hgap₄, hgap₅,
    hkeyword, hname, -⟩ := emptyForInitializer_shape hm hfix
  have hstart : StartsInCode "for".toList :=
    StartsInCode.of_forall (by simp) (by simp [openers, marks])
  have hkeyword : ReadsCode keyword := by
    rcases hkeyword with rfl | rfl <;> exact ReadsCode.of_forall (by simp [marks])
  rw [htext]
  exact ((((((((((hstart.append (readsCode_of_isBlank hgap₁)).append
    (ReadsCode.singleton (by decide))).append (readsCode_of_isBlank hgap₂)).append
    hkeyword).append (readsCode_of_isBlank hgap₃)).append (readsCode_of_name hname)).append
    (readsCode_of_isBlank hgap₄)).append (ReadsCode.singleton (by decide))).append
    (readsCode_of_isBlank hgap₅)).append (ReadsCode.singleton (by decide)))

/-- What stands between the quotes is kept, wherever a literal begins in it. -/
theorem keepsLiterals_smartQuotes : KeepsLiterals smartQuotes := by
  refine keepsLiterals_of_startsInCode fun m replacement hm hfix => ?_
  obtain ⟨opening, body, closing, quote, htext, hopening, -, -, -, rfl⟩ := smartQuotes_shape hm hfix
  have hcurly : ∀ c, IsCurly c → c ∉ openers := by
    unfold IsCurly
    simp [openers]
  refine ⟨[opening], body, [closing], [quote], [quote], htext, ?_, ?_, rfl⟩
  · show m.text.dropLast = _
    rw [htext, ← List.cons_append]
    exact List.dropLast_concat
  · exact ⟨opening, [], rfl, hcurly opening hopening, ReadsCode.of_forall (by simp)⟩

/-- The words and brackets of a destructuring that binds nothing are code. -/
theorem startsInCode_of_isDestructuringHead {head : List Char} (h : IsDestructuringHead head) :
    StartsInCode head := by
  obtain ⟨indent, keyword, gap₁, binding, gap₂, gap₃, rfl, hindent, hgap₁, hgap₂, hgap₃, hkeyword,
    hbinding⟩ := h
  have hword : keyword ≠ [] ∧ ∀ c ∈ keyword, c ∉ openers ∧ c ∉ marks := by
    rcases hkeyword with rfl | rfl | rfl <;> simp [openers, marks]
  have hstart : StartsInCode (indent ++ keyword) := by
    refine StartsInCode.of_forall (by simp [hword.1]) fun c hc => ?_
    rcases List.mem_append.mp hc with hc | hc
    · exact not_mem_of_isBlank (hindent c hc)
    · exact hword.2 c hc
  have hbinding : ReadsCode binding := by
    obtain ⟨gap, hgap, rfl | rfl⟩ := hbinding
    · exact (readsCode_of_isBlank hgap).braces
    · exact (ReadsCode.singleton (by decide)).append
        ((readsCode_of_isBlank hgap).append (ReadsCode.singleton (by decide)))
  exact (((((hstart.append (readsCode_of_isBlank hgap₁)).append hbinding).append
    (readsCode_of_isBlank hgap₂)).append (ReadsCode.singleton (by decide))).append
    (readsCode_of_isBlank hgap₃))

/-- The expression of a destructuring that binds nothing is kept. -/
theorem keepsLiterals_emptyDestructuring : KeepsLiterals emptyDestructuring := by
  refine keepsLiterals_of_startsInCode fun m replacement hm hfix => ?_
  obtain ⟨indent, keyword, gap₁, binding, gap₂, gap₃, expression, htext, hindent, hgap₁, hgap₂,
    hgap₃, hkeyword, hbinding, -, -, rfl⟩ := emptyDestructuring_shape hm hfix
  refine ⟨indent ++ keyword ++ gap₁ ++ binding ++ gap₂ ++ ['='] ++ gap₃, expression, [], indent, [],
    ?_, ?_, startsInCode_of_isDestructuringHead ⟨indent, keyword, gap₁, binding, gap₂, gap₃, rfl,
      hindent, hgap₁, hgap₂, hgap₃, hkeyword, hbinding⟩, by rw [List.append_nil]⟩
  · rw [htext]
    simp
  · show m.text = _
    rw [htext]
    simp

/-- A comma at the end of a line with blanks around it goes, and what stands in front is kept, be it
code or not. -/
theorem keepsLiterals_of_semicolonAfter {rule : Rule}
    (hname : rule.name = "import-trailing-comma" ∨ rule.name = "export-list-trailing-comma")
    (hshape : ∀ m replacement, Match.Of rule.pattern m →
      rule.fixer.bind (· m) = some replacement → ∃ head last front back,
        m.text = (head ++ [last]) ++ (front ++ ',' :: back) ∧ last ∉ [',', ' ', '\t'] ∧
        IsBlank front ∧ IsBlank back ∧ replacement = (head ++ [last]) ++ [';']) :
    KeepsLiterals rule := by
  intro text before after m replacement _ _ hm hfix
  obtain ⟨head, last, front, back, htext, hlast, hfront, hback, rfl⟩ := hshape m replacement hm hfix
  have hkept : keptPart rule.name m.text = head ++ [last] := by
    have hcomma : ∀ c ∈ (front ++ ',' :: back).reverse,
        (c == ',' || c == ' ' || c == '\t') = true := by
      intro c hc
      rw [List.mem_reverse, List.mem_append, List.mem_cons] at hc
      rcases hc with hc | rfl | hc
      · rcases hfront c hc with rfl | rfl <;> rfl
      · rfl
      · rcases hback c hc with rfl | rfl <;> rfl
    have hrule : rule.name ≠ "smart-quotes" := by
      rcases hname with h | h <;> rw [h] <;> decide
    rw [keptPart, if_neg hrule, if_pos hname, htext, List.rdropWhile, List.reverse_append,
      List.dropWhile_append_of_pos hcomma, List.reverse_append, List.reverse_singleton,
      List.singleton_append, List.dropWhile_cons_of_neg, List.reverse_cons, List.reverse_reverse]
    simpa [and_assoc] using hlast
  rw [hkept]
  exact (literalRuns_appearInOrder _ _ _).append_right [';']

theorem keepsLiterals_importTrailingComma : KeepsLiterals importTrailingComma := by
  refine keepsLiterals_of_semicolonAfter (Or.inl rfl) fun m replacement hm hfix => ?_
  obtain ⟨head, quote, front, back, htext, hquote, hfront, hback, rfl⟩ :=
    importTrailingComma_shape hm hfix
  refine ⟨head, quote, front, back, htext, ?_, hfront, hback, rfl⟩
  rcases hquote with rfl | rfl <;> decide

theorem keepsLiterals_exportListTrailingComma : KeepsLiterals exportListTrailingComma := by
  refine keepsLiterals_of_semicolonAfter (Or.inr rfl) fun m replacement hm hfix => ?_
  obtain ⟨head, front, back, htext, hfront, hback, rfl⟩ := exportListTrailingComma_shape hm hfix
  exact ⟨head, '}', front, back, htext, by decide, hfront, hback, rfl⟩

/-- All static rules keep the literals in the part of a match that they keep. -/
theorem keepsLiterals_of_mem_staticRules {rule : Rule} (h : rule ∈ catalog.staticRules) :
    KeepsLiterals rule := by
  rw [staticRules_eq] at h
  simp only [List.mem_cons, List.not_mem_nil, or_false] at h
  rcases h with rfl | rfl | rfl | rfl | rfl | rfl | rfl | rfl
  exacts [keepsLiterals_duplicateComma, keepsLiterals_duplicateSemicolon,
    keepsLiterals_importTrailingComma, keepsLiterals_exportListTrailingComma,
    keepsLiterals_emptyForInitializer, keepsLiterals_braceLeadingComma, keepsLiterals_smartQuotes,
    keepsLiterals_emptyDestructuring]

/-! ## Fixes of a scan -/

/-- Every longest run of literal text in the part of a match that its fix keeps appears in the
fix unchanged, in one piece and in order. -/
theorem literalRuns_appear {text : List Char} {finding : Finding} {edit : TextEdit}
    (h : finding ∈ scan catalog.staticRules text) (hfix : finding.fix = some edit) :
    AppearInOrder
      (literalRuns (literalSpans text) edit.start (keptPart finding.rule finding.matched))
      edit.replacement := by
  obtain ⟨rule, hrule, m, hm, rfl⟩ := mem_scan.mp h
  obtain ⟨hsuggest, hstart, -⟩ := Finding.ofMatch_fix_eq_some hfix
  obtain ⟨hof, htext, hcode⟩ := Rule.of_mem_codeMatches hm
  obtain ⟨hreplacement, -⟩ := Option.filter_eq_some_iff.mp hsuggest
  have hplace : m.start = utf8Size m.before.reverse := (utf8Size_reverse m.before).symm
  rw [hplace] at hstart hcode
  rw [hstart]
  exact keepsLiterals_of_mem_staticRules hrule text m.before.reverse m.after m edit.replacement
    htext hcode hof hreplacement

/-- A destructuring that binds nothing, with two strings and a comment in its right-hand side. -/
theorem literalRuns_appear_emptyDestructuring :
    ∃ finding ∈ scan catalog.staticRules "let {} = f('a', /* b */ \"c\");".toList, ∃ edit,
      finding.fix = some edit ∧
      literalRuns (literalSpans "let {} = f('a', /* b */ \"c\");".toList) edit.start
        (keptPart finding.rule finding.matched) = ["a".toList, "/* b */".toList, "c".toList] ∧
      AppearInOrder ["a".toList, "/* b */".toList, "c".toList] edit.replacement := by
  have hfindings : computedFindings catalog.staticRules "let {} = f('a', /* b */ \"c\");".toList =
      [⟨"empty-destructuring", .warning, 1, 1, "let {} = f('a', /* b */ \"c\");".toList,
        "Destructuring that binds nothing; keep the expression for its effects",
        some ⟨0, 29, "f('a', /* b */ \"c\");".toList⟩⟩] := by
    rw [staticRules_eq]
    decide +kernel
  have hmem := mem_scan_of_eq_singleton hfindings
  have hruns : literalRuns (literalSpans "let {} = f('a', /* b */ \"c\");".toList) 0
      (keptPart "empty-destructuring" "let {} = f('a', /* b */ \"c\");".toList)
        = ["a".toList, "/* b */".toList, "c".toList] := by decide +kernel
  have happear := @literalRuns_appear _ _ ⟨0, 29, "f('a', /* b */ \"c\");".toList⟩ hmem rfl
  refine ⟨_, hmem, ⟨0, 29, "f('a', /* b */ \"c\");".toList⟩, rfl, hruns, ?_⟩
  rw [← hruns]
  exact happear

/-- The curly quote at the end of a match may stand in a comment, and does not come back. -/
theorem literalRuns_not_kept :
    ¬ ∀ text, ∀ finding ∈ scan catalog.staticRules text, ∀ edit, finding.fix = some edit →
      AppearInOrder (literalRuns (literalSpans text) edit.start finding.matched)
        edit.replacement := by
  have hfindings : computedFindings catalog.staticRules
      "const s = \u2018see http://a.b/\u2019;".toList =
      [⟨"smart-quotes", .warning, 1, 11, "\u2018see http://a.b/\u2019".toList,
        "Curly quotes used as string delimiters", some ⟨10, 31, "'see http://a.b/'".toList⟩⟩] := by
    rw [staticRules_eq]
    decide +kernel
  have hruns : literalRuns (literalSpans "const s = \u2018see http://a.b/\u2019;".toList) 10
        "\u2018see http://a.b/\u2019".toList = ["//a.b/\u2019".toList] := by decide +kernel
  intro hall
  have happear := hall _ _ (mem_scan_of_eq_singleton hfindings)
    ⟨10, 31, "'see http://a.b/'".toList⟩ rfl
  rw [hruns] at happear
  cases happear with
  | cons gap after htext _ =>
    have hsame : "'see http://a.b/'".toList = gap ++ ("//a.b/\u2019".toList ++ after) := htext
    have hmem : '\u2019' ∈ "'see http://a.b/'".toList := by
      rw [hsame]
      simp
    exact absurd hmem (by simp)

end TypeScript
end SourceRepair
