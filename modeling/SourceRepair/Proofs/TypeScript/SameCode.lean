import SourceRepair.Proofs.Rule.Literals
import SourceRepair.Proofs.Scan.Places
import SourceRepair.Proofs.TypeScript.LineByLine
import SourceRepair.Proofs.TypeScript.LiteralRuns

/-!
# Scans of texts with the same code

What is written inside strings and comments should not matter for what a scan finds outside of them.
For the rules that read no literals, and for a destructuring that binds nothing, whose right-hand
side may be anything, it does not. The other rules, `literalReaders`, can go on into a literal or
over one, so they find the same where their matches carry over to the other text:
`filter_scanPlaces_eq_of_sameCode`. That this has to be asked for is `scanPlaces_ne_of_sameCode`:
what a string between curly quotes holds decides on whether these are reported.
-/

namespace SourceRepair.TypeScript

open Text Pattern CharClass LiteralSpans

/-! ## Rules that read no literals -/

/-- The static rules whose matches may go on into literals and comments, or over them. -/
def literalReaders : List Rule :=
  [importTrailingComma, exportListTrailingComma, smartQuotes]

/-- All other static rules read only code, but for what a destructuring has on the right-hand side.
-/
theorem readsUnmarked_of_mem_staticRules {rule : Rule} (h : rule ∈ catalog.staticRules)
    (hreader : rule ∉ literalReaders) (hdestructuring : rule ≠ emptyDestructuring) :
    rule.pattern.ReadsUnmarked := by
  have hall : ∀ rule ∈ [duplicateComma, duplicateSemicolon, emptyForInitializer,
      braceLeadingComma], rule.pattern.ReadsUnmarked := by
    decide
  rw [staticRules_eq] at h
  simp only [literalReaders, List.mem_cons, List.not_mem_nil, or_false, not_or] at h hreader
  refine hall rule ?_
  simp only [List.mem_cons, List.not_mem_nil, or_false]
  tauto

/-- No static rule reads the marks of a border at the wrong end of its match. -/
theorem codeEdged_of_mem_staticRules {rule : Rule} (h : rule ∈ catalog.staticRules)
    (hdestructuring : rule ≠ emptyDestructuring) : rule.pattern.CodeEdged := by
  have hall : ∀ rule ∈ [duplicateComma, duplicateSemicolon, importTrailingComma,
      exportListTrailingComma, emptyForInitializer, braceLeadingComma, smartQuotes],
      rule.pattern.CodeEdged := by
    decide
  rw [staticRules_eq] at h
  simp only [List.mem_cons, List.not_mem_nil, or_false] at h
  refine hall rule ?_
  simp only [List.mem_cons, List.not_mem_nil, or_false]
  tauto

/-! ## A destructuring that binds nothing -/

section Destructuring

variable {head : List Char}

theorem IsDestructuringHead.ne_nil (h : IsDestructuringHead head) : head ≠ [] := by
  obtain ⟨_, _, _, _, _, _, rfl, -⟩ := h
  simp

/-- Nothing in the words and brackets ends a literal. -/
theorem IsDestructuringHead.not_mem_exits (h : IsDestructuringHead head) :
    ∀ c ∈ head, c ∉ exits ∧ c ≠ '$' := by
  obtain ⟨indent, keyword, gap₁, binding, gap₂, gap₃, rfl, hindent, hgap₁, hgap₂, hgap₃, hkeyword,
    hbinding⟩ := h
  have hblank : ∀ {gap : List Char}, IsBlank gap → ∀ c ∈ gap, c ∉ exits ∧ c ≠ '$' := by
    intro gap hgap c hc
    rcases hgap c hc with rfl | rfl <;> decide
  have hkeyword : ∀ c ∈ keyword, c ∉ exits ∧ c ≠ '$' := by
    rcases hkeyword with rfl | rfl | rfl <;> simp [exits]
  have hbinding : ∀ c ∈ binding, c ∉ exits ∧ c ≠ '$' := by
    obtain ⟨gap, hgap, rfl | rfl⟩ := hbinding <;>
      simpa [exits, or_imp, forall_and] using hblank hgap
  intro c hc
  simp only [List.mem_append, List.mem_singleton] at hc
  rcases hc with (((((hc | hc) | hc) | hc) | hc) | rfl) | hc
  exacts [hblank hindent c hc, hkeyword c hc, hblank hgap₁ c hc, hbinding c hc, hblank hgap₂ c hc,
    by decide, hblank hgap₃ c hc]

/-- The words and brackets end with the sign of equality or a blank. -/
theorem IsDestructuringHead.not_mem_entrances (h : IsDestructuringHead head) :
    ∀ c ∈ head.getLast?, c ∉ entrances := by
  obtain ⟨indent, keyword, gap₁, binding, gap₂, gap₃, rfl, -, -, -, hgap₃, -⟩ := h
  intro c hc
  rw [List.append_assoc, List.getLast?_append] at hc
  have hend : c ∈ ['='] ++ gap₃ := List.mem_of_getLast? (by simpa using hc)
  rcases List.mem_cons.mp hend with rfl | hblank
  · decide
  · rcases hgap₃ c hblank with rfl | rfl <;> decide

variable {text other : List Char}

/-- A line that begins with the words and brackets and goes on with an expression is a match. -/
theorem exists_mem_allMatches_emptyDestructuring {before after : List Char} {c : Char}
    (hhead : IsDestructuringHead head) (hc : isWhite c = false)
    (hstart : Assertion.lineStart.holds before (head ++ c :: after) = true) :
    ∃ m ∈ emptyDestructuring.pattern.allMatches (before.reverse ++ (head ++ c :: after)),
      m.start = utf8Size before := by
  -- the expression goes on up to the end of the line
  have hsplit := List.takeWhile_append_dropWhile (p := fun d => d != '\r' && d != '\n') (l := after)
  have hline : ∀ d ∈ after.takeWhile (fun d => d != '\r' && d != '\n'), d ≠ '\r' ∧ d ≠ '\n' := by
    intro d hd
    simpa using List.all_eq_true.mp List.all_takeWhile d hd
  have hbreak := List.head?_dropWhile_not (fun d => d != '\r' && d != '\n') after
  generalize after.takeWhile (fun d => d != '\r' && d != '\n') = line at *
  generalize after.dropWhile (fun d => d != '\r' && d != '\n') = rest at *
  subst hsplit
  have hlast : ((head ++ c :: line).reverse ++ before).head? ≠ some '\r' := by
    rw [List.reverse_append, List.append_assoc, List.head?_append_of_ne_nil _ (by simp),
      List.head?_reverse]
    intro hreturn
    rcases List.mem_cons.mp (List.mem_of_getLast? hreturn) with rfl | hmem
    · exact absurd hc (by decide)
    · exact (hline _ hmem).1 rfl
  have hend : Assertion.lineEnd.holds ((head ++ c :: line).reverse ++ before) rest = true := by
    cases rest with
    | nil => rfl
    | cons d rest =>
      have hterminator : d = '\r' ∨ d = '\n' := by
        have hno : (d != '\r' && d != '\n') = false := hbreak
        simpa using Bool.and_eq_false_iff.mp hno
      rcases hterminator with rfl | rfl
      · rfl
      · simpa [Assertion.holds] using hlast
  obtain ⟨groups, hreads⟩ := exists_reads_emptyDestructuring hhead hc hline (by simpa using hstart)
    hend
  obtain ⟨m, hm⟩ := hreads.exists_matchAt?
  obtain ⟨-, hbefore, -⟩ := matchAt?_eq_some hm
  have hplace : m.start = utf8Size before := by rw [Match.start, hbefore]
  have hstays : emptyDestructuring.pattern.StaysInLine :=
    staysInLine_of_mem_staticRules (by rw [staticRules_eq]; simp)
  have htext : before.reverse ++ (head ++ c :: line ++ rest)
      = before.reverse ++ (head ++ c :: (line ++ rest)) := by simp
  refine ⟨m, hstays.mem_allMatches hm htext fun n hn hlt => ?_, hplace⟩
  rw [hplace, ← utf8Size_reverse] at hlt ⊢
  have honly : ∀ d, d = '\n' ∨ d = '\r' → emptyDestructuring.pattern.OnlyReads (· ≠ d) := by
    rintro d (rfl | rfl) <;> decide
  cases before with
  | nil => exact absurd hlt (Nat.not_lt_zero _)
  | cons d before =>
    -- no match reaches over the line terminator in front
    have hreads := honly d (Assertion.eq_of_holds_lineStart hstart d rfl)
    refine stop_le_of_onlyReads_ne hreads rfl ?_ hn hlt
    simp

/-- A destructuring that binds nothing is found in every text of the same code. -/
theorem exists_emptyDestructuring (h : SameCode text other) {m : Match}
    (hm : m ∈ emptyDestructuring.codeMatches text) :
    ∃ m' ∈ emptyDestructuring.codeMatches other, m'.start = m.start := by
  obtain ⟨hof, htext, hcode⟩ := Rule.of_mem_codeMatches hm
  obtain ⟨indent, keyword, gap₁, binding, gap₂, gap₃, expression, hword, hindent, hgap₁, hgap₂,
    hgap₃, hkeyword, hbinding, hvisible, hne, -⟩ := emptyDestructuring_shape hof rfl
  obtain ⟨head, hhead, hread⟩ : ∃ head, IsDestructuringHead head ∧ m.text = head ++ expression :=
    ⟨_, ⟨indent, keyword, gap₁, binding, gap₂, gap₃, rfl, hindent, hgap₁, hgap₂, hgap₃, hkeyword,
      hbinding⟩, by rw [hword]; simp only [List.append_assoc]⟩
  obtain ⟨c, line, rfl⟩ := List.exists_cons_of_ne_nil hne
  have hstart : Assertion.lineStart.holds m.before (m.text ++ m.after) = true :=
    Reads.holds_of_assertion hof
  rw [hread, List.append_assoc] at htext hstart
  have hplace : utf8Size m.before.reverse = m.start := utf8Size_reverse m.before
  obtain ⟨before, after, hother, hsame, hbefore, hafter⟩ :=
    h.exists_word_surrounded hhead.ne_nil htext
      (fun offset hlow hhigh => (startsInCode_of_isDestructuringHead hhead).covers_eq_false htext
        (hplace ▸ hcode) (hplace ▸ hlow) (hplace ▸ hhigh))
      (fun d hd => hhead.not_mem_exits d (List.mem_of_head? hd)) hhead.not_mem_entrances
  obtain ⟨more, rfl⟩ : ∃ more, after = c :: more := List.head?_eq_some_iff.mp hafter
  have hline : Assertion.lineStart.holds before (head ++ c :: more) = true := by
    rw [← hstart]
    refine Assertion.lineStart.holds_congr hbefore ?_
    rw [List.head?_append_of_ne_nil _ hhead.ne_nil, List.head?_append_of_ne_nil _ hhead.ne_nil]
  obtain ⟨m', hm', hstart'⟩ :=
    exists_mem_allMatches_emptyDestructuring hhead (hvisible c rfl) hline
  rw [← hother] at hm'
  have hsameStart : m'.start = m.start := hstart'.trans hsame
  exact ⟨m', Rule.mem_codeMatches.mpr ⟨hm', by rw [hsameStart, h.spans_eq, hcode]⟩, hsameStart⟩

end Destructuring

/-! ## Scans of both texts -/

variable {text other : List Char}

/-- A static rule has a match in code at an offset of both texts or of none, if it reads no literals
or its matches carry over. -/
theorem mem_starts_iff_of_sameCode (h : SameCode text other) {rule : Rule}
    (hrule : rule ∈ catalog.staticRules) {offset : Nat}
    (hreader : rule ∈ literalReaders → rule.CarriesOverAt offset text other) :
    offset ∈ rule.starts text ↔ offset ∈ rule.starts other := by
  rw [Rule.mem_starts, Rule.mem_starts]
  by_cases hdestructuring : rule = emptyDestructuring
  · subst hdestructuring
    constructor
    · rintro ⟨m, hm, rfl⟩
      exact exists_emptyDestructuring h hm
    · rintro ⟨m, hm, rfl⟩
      exact exists_emptyDestructuring h.symm hm
  · have hstays := staysInLine_of_mem_staticRules hrule
    have hedged := codeEdged_of_mem_staticRules hrule hdestructuring
    refine Rule.exists_start_eq_iff h hstays hedged ?_
    by_cases hmem : rule ∈ literalReaders
    · exact hreader hmem
    · exact Rule.carriesOverAt_of_readsUnmarked
        (readsUnmarked_of_mem_staticRules hrule hmem hdestructuring) offset text other

/-- In two texts with the same code a scan reports the same rules at the same offsets, in the same
order: all findings of the rules that read no literals, and also those of the other rules at places
where their matches carry over. -/
theorem filter_scanPlaces_eq_of_sameCode (h : SameCode text other) :
    (scanPlaces catalog.staticRules text).filter
        (fun place => place.1 ∉ literalReaders.map (·.name))
      = (scanPlaces catalog.staticRules other).filter
        (fun place => place.1 ∉ literalReaders.map (·.name)) ∧
    ∀ wanted : String × Nat → Bool,
      (∀ rule ∈ literalReaders, ∀ offset, wanted (rule.name, offset) = true →
        rule.CarriesOverAt offset text other) →
      (scanPlaces catalog.staticRules text).filter wanted
        = (scanPlaces catalog.staticRules other).filter wanted := by
  have hwanted : ∀ wanted : String × Nat → Bool,
      (∀ rule ∈ literalReaders, ∀ offset, wanted (rule.name, offset) = true →
        rule.CarriesOverAt offset text other) →
      (scanPlaces catalog.staticRules text).filter wanted
        = (scanPlaces catalog.staticRules other).filter wanted := by
    intro wanted hcarries
    refine filter_scanPlaces_eq fun rule hrule => ?_
    refine Rule.filter_starts_eq fun offset hoffset => ?_
    exact mem_starts_iff_of_sameCode h hrule fun hmem => hcarries rule hmem offset hoffset
  refine ⟨hwanted _ fun rule hmem offset hoffset => ?_, hwanted⟩
  exact absurd (List.mem_map_of_mem hmem) (of_decide_eq_true hoffset)

/-- An import of the module `ab`, or of `cd`, with a comma at its end. -/
theorem filter_scanPlaces_eq_of_sameCode_import :
    let text := "\x7d from 'ab',".toList
    let other := "\x7d from 'cd',".toList
    SameCode text other ∧
      (∀ rule ∈ literalReaders, ∀ offset, rule.CarriesOverAt offset text other) ∧
      (scanPlaces catalog.staticRules text).filter (fun _ => true)
        = (scanPlaces catalog.staticRules other).filter (fun _ => true) := by
  have h : SameCode "\x7d from 'ab',".toList "\x7d from 'cd',".toList := by decide +kernel
  -- only the rule for imports has a match in these texts, and it reads all of them
  have hreads : ∀ t ∈ ["\x7d from 'ab',".toList, "\x7d from 'cd',".toList],
      (∀ m ∈ importTrailingComma.pattern.matchesWithin 26 false [] t, m.start = 0 ∧ m.stop = 12) ∧
        exportListTrailingComma.pattern.matchesWithin 26 false [] t = [] ∧
        smartQuotes.pattern.matchesWithin 26 false [] t = [] ∧
        (importTrailingComma.pattern.matchAt? ⟨[], t, []⟩).map (fun m => (m.start, m.stop))
          = some (0, 12) ∧
        t.length = 12 ∧ Span.covers (literalSpans t) 0 = false := by
    decide +kernel
  have hcarries : ∀ t ∈ ["\x7d from 'ab',".toList, "\x7d from 'cd',".toList],
      ∀ t' ∈ ["\x7d from 'ab',".toList, "\x7d from 'cd',".toList],
      ∀ rule ∈ literalReaders, ∀ low high, rule.CarriesOver low high t t' := by
    intro t ht t' ht' rule hrule low high
    obtain ⟨himport, hexport, hquotes, -, hlength, hcode⟩ := hreads t ht
    obtain ⟨-, -, -, hthere, -⟩ := hreads t' ht'
    refine Rule.carriesOver_of_forall (fun m hm => ?_) low high
    rw [allMatches_eq_matchesWithin, hlength] at hm
    simp only [literalReaders, List.mem_cons, List.not_mem_nil, or_false] at hrule
    rcases hrule with rfl | rfl | rfl
    · obtain ⟨hstart, hstop⟩ := himport m hm
      obtain ⟨m', hm', hplace⟩ := Option.map_eq_some_iff.mp hthere
      rw [hstart, hstop]
      exact ⟨hcode, [], t', m', rfl, hm', (Prod.mk.inj hplace).1, (Prod.mk.inj hplace).2⟩
    · rw [hexport] at hm
      exact absurd hm List.not_mem_nil
    · rw [hquotes] at hm
      exact absurd hm List.not_mem_nil
  have hcarriesAt : ∀ rule ∈ literalReaders, ∀ offset,
      rule.CarriesOverAt offset "\x7d from 'ab',".toList "\x7d from 'cd',".toList :=
    fun rule hrule offset => ⟨0, offset + 1, Nat.zero_le offset, Nat.lt_succ_self offset,
      lineStartsAt_zero _, lineStartsAt_zero _, hcarries _ (by simp) _ (by simp) rule hrule _ _,
      hcarries _ (by simp) _ (by simp) rule hrule _ _⟩
  exact ⟨h, hcarriesAt, (filter_scanPlaces_eq_of_sameCode h).2 _ fun rule hrule offset _ =>
    hcarriesAt rule hrule offset⟩

/-- Curly quotes stay where there is a straight one between them, as they would be made straight. So
what a string between them holds decides on whether they are reported. -/
theorem scanPlaces_ne_of_sameCode :
    ¬ ∀ text other, SameCode text other →
      scanPlaces catalog.staticRules text = scanPlaces catalog.staticRules other := by
  have h : SameCode "\u2018say \"it's\"\u2019".toList "\u2018say \"itis\"\u2019".toList := by
    decide +kernel
  have hkept : computedFindings catalog.staticRules "\u2018say \"it's\"\u2019".toList = [] := by
    rw [staticRules_eq]
    decide +kernel
  have hreported : computedFindings catalog.staticRules "\u2018say \"itis\"\u2019".toList =
      [⟨"smart-quotes", .warning, 1, 1, "\u2018say \"itis\"\u2019".toList,
        "Curly quotes used as string delimiters", some ⟨0, 16, "'say \"itis\"'".toList⟩⟩] := by
    rw [staticRules_eq]
    decide +kernel
  intro hall
  have hsame := hall _ _ h
  rw [scanPlaces, scanPlaces, scan_eq_singleton hreported, scan_eq_mergeSort, hkept,
    List.mergeSort_nil] at hsame
  exact absurd hsame.symm (List.cons_ne_nil _ _)

end SourceRepair.TypeScript
