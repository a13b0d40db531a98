import SourceRepair.Proofs.Edit.Dispatch
import SourceRepair.Proofs.Literal.Ends
import SourceRepair.Proofs.Rule.Settling
import SourceRepair.Proofs.Scan.Computed
import SourceRepair.Proofs.TypeScript.Shapes

/-!
# Marks put at the end of a line

Three rules end a line in a semicolon or a comma. They refuse a line that could hold a comment, and
one whose brackets or backticks do not pair up. `evaluate_appends` says when the mark is code: if
all literals of the line have ended in front of it.

In a line without quotes, escapes and template holes the even number of backticks is enough for
that. In other lines it is not: a backslash takes the meaning from a backtick that is counted all
the same, and quotes are not counted at all, so a mark can be put into a literal that is still open
(`evaluate_appends_not_always`).
-/

namespace SourceRepair.TypeScript

open Pattern LiteralSpans

/-- A text with a mark behind it, which reads as closed: it has no comment, its brackets pair up,
and the number of its backticks is even. -/
def ClosesWith (mark : Char) (text : List Char) : Prop :=
  ∃ body, text = body ++ [mark] ∧ mentionsComment body = false ∧ bracketsBalanced body = true

/-- A rule for a whole line makes of it what its fixer makes of the match. -/
theorem exists_fixer_eq_of_evaluate {rule : Rule} {p : Pattern} {context : LineContext}
    {result : List Char} (hp : rule.pattern = .seq .lineStart p)
    (hconsumes : rule.pattern.consumes = true) (hend : rule.pattern.endsAtLineEnd = true)
    (hwindow : rule.window = .line) (hline : IsLine context.current)
    (h : rule.evaluate context = .changed result) :
    ∃ m, rule.fixer.bind (· m) = some result := by
  obtain ⟨window, -, htext, hchanged⟩ := Rule.evaluate_changed h
  rw [hwindow] at htext
  obtain rfl := Option.some.inj htext
  obtain ⟨m, replacement, hof, hwhole, hreplacement, rfl⟩ :=
    Rule.exists_fix_at_end hconsumes hend hline hchanged
  rw [hp] at hof
  rw [hline.before_eq_nil hof hwhole, List.reverse_nil, List.nil_append]
  exact ⟨m, hreplacement⟩

/-- The rules that put a mark at the end of a line. -/
def appendingRules : List Rule :=
  [missingTerminator, missingAssignmentTerminator, missingPropertyComma]

/-- What such a rule makes of a line reads as closed up to the mark. -/
theorem closesWith_of_evaluate {rule : Rule} (hrule : rule ∈ appendingRules)
    {context : LineContext} (hline : IsLine context.current) {result : List Char}
    (h : rule.evaluate context = .changed result) :
    ClosesWith ';' result ∨ ClosesWith ',' result := by
  simp only [appendingRules, List.mem_cons, List.not_mem_nil, or_false] at hrule
  rcases hrule with rfl | rfl | rfl
  · obtain ⟨m, hm⟩ := exists_fixer_eq_of_evaluate rfl rfl rfl rfl hline h
    exact Or.inl ⟨_, of_terminate hm⟩
  · obtain ⟨m, hm⟩ := exists_fixer_eq_of_evaluate rfl rfl rfl rfl hline h
    exact Or.inl ⟨_, of_terminate hm⟩
  · obtain ⟨m, hm⟩ := exists_fixer_eq_of_evaluate rfl rfl rfl rfl hline h
    exact Or.inr ⟨_, of_closeMember hm⟩

/-- A mark behind a text without comments is code if all literals have ended in front of it, and in
a text without quotes, escapes and holes they have if the backticks pair up. -/
theorem covers_mark {body : List Char} {mark : Char} (hmark : mark ∉ delimiters)
    (hcomment : mentionsComment body = false) (hbalanced : bracketsBalanced body = true) :
    (Span.covers (literalSpans (body ++ [mark])) (Text.utf8Size body) = false ↔
        ∀ span ∈ literalSpans body, span.stop < Text.utf8Size body) ∧
      (HasOnlyTemplates body →
        Span.covers (literalSpans (body ++ [mark])) (Text.utf8Size body) = false) := by
  rw [mentionsComment, Bool.or_eq_false_iff] at hcomment
  have hline := Text.not_infix_of_occurs hcomment.1
  have hblock := Text.not_infix_of_occurs hcomment.2
  have hfits : ScanMode.code.Fits 0 := trivial
  rw [covers_eq_false_iff_after hmark body []]
  refine ⟨?_, fun hplain => ?_⟩
  · have hended := kind_after_eq_code_iff [] hfits (by simp [ScanMode.kind]) hblock
    rwa [Nat.zero_add] at hended
  · simp only [bracketsBalanced, Bool.and_eq_true, beq_iff_eq] at hbalanced
    exact (kind_after_of_hasOnlyTemplates hplain hline hblock).1.mpr hbalanced.2

/-- A rule that ends a line puts a semicolon or a comma behind it. The mark is code if and only if
every literal of the line ends in front of it, and so it is in all lines without quotes, escapes and
template holes. -/
theorem evaluate_appends {rule : Rule} (hrule : rule ∈ appendingRules) {context : LineContext}
    (hline : ∀ c ∈ context.current, c ≠ '\n' ∧ c ≠ '\r') {result : List Char}
    (h : rule.evaluate context = .changed result) :
    ∃ body mark, result = body ++ [mark] ∧ (mark = ';' ∨ mark = ',') ∧
      (Span.covers (literalSpans result) (Text.utf8Size body) = false ↔
        ∀ span ∈ literalSpans body, span.stop < Text.utf8Size body) ∧
      (HasOnlyTemplates body →
        Span.covers (literalSpans result) (Text.utf8Size body) = false) := by
  rcases closesWith_of_evaluate hrule hline h with
    ⟨body, rfl, hcomment, hbalanced⟩ | ⟨body, rfl, hcomment, hbalanced⟩
  · exact ⟨body, ';', rfl, Or.inl rfl, covers_mark (by decide) hcomment hbalanced⟩
  · exact ⟨body, ',', rfl, Or.inr rfl, covers_mark (by decide) hcomment hbalanced⟩

/-- Where nothing is known of the lines around, a statement is ended whatever the compiler says. -/
theorem evaluate_missingTerminator_alone (line : List Char) :
    missingTerminator.evaluate ⟨none, line, none, none⟩ = missingTerminator.rewrite line := rfl

/-- A declaration whose value is a template literal. -/
theorem evaluate_appends_template :
    let context : LineContext := ⟨none, "let a = \x60x\x60".toList, none, none⟩
    let result := "let a = \x60x\x60;".toList
    missingTerminator ∈ appendingRules ∧ (∀ c ∈ context.current, c ≠ '\n' ∧ c ≠ '\r') ∧
      missingTerminator.evaluate context = .changed result ∧
      ∃ body mark, result = body ++ [mark] ∧ (mark = ';' ∨ mark = ',') ∧
        (Span.covers (literalSpans result) (Text.utf8Size body) = false ↔
          ∀ span ∈ literalSpans body, span.stop < Text.utf8Size body) ∧
        (HasOnlyTemplates body →
          Span.covers (literalSpans result) (Text.utf8Size body) = false) := by
  intro context result
  have hrule : missingTerminator ∈ appendingRules := List.mem_cons_self
  have hline : ∀ c ∈ "let a = \x60x\x60".toList, c ≠ '\n' ∧ c ≠ '\r' := by simp
  have hchanged : missingTerminator.evaluate context = .changed result := by
    rw [evaluate_missingTerminator_alone, Rule.rewrite, Rule.fixes,
      Rule.codeMatches_eq_computedMatches]
    decide +kernel
  exact ⟨hrule, hline, hchanged, evaluate_appends hrule hline hchanged⟩

/-- The mark is not always code. A backslash in front of the second backtick keeps the template
literal open, but the two backticks count as a pair. -/
theorem evaluate_appends_not_always :
    ¬ ∀ rule ∈ appendingRules, ∀ context : LineContext, IsLine context.current →
      ∀ body mark, rule.evaluate context = .changed (body ++ [mark]) →
        Span.covers (literalSpans (body ++ [mark])) (Text.utf8Size body) = false := by
  have hline : IsLine "let a = \x60x\\\x60".toList := by simp [IsLine]
  have hchanged : missingTerminator.evaluate ⟨none, "let a = \x60x\\\x60".toList, none, none⟩
      = .changed ("let a = \x60x\\\x60".toList ++ [';']) := by
    rw [evaluate_missingTerminator_alone, Rule.rewrite, Rule.fixes,
      Rule.codeMatches_eq_computedMatches]
    decide +kernel
  intro hall
  have hcode := hall missingTerminator List.mem_cons_self _ hline _ _ hchanged
  exact absurd hcode (by decide +kernel)

end SourceRepair.TypeScript
