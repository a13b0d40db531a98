import SourceRepair.Proofs.Scan.Computed
import SourceRepair.Proofs.TypeScript.Shapes
import SourceRepair.Proofs.TypeScript.StaticRules

/-!
# Passes of fixes end

A pass scans a text and applies the fixes found. `fixOnce_iterate_terminates` says that passes with
the static rules reach a text without fixes, whatever they start from, and that no text comes up
again while there is something to fix.

No count of one character goes down with every fix. Fixes of imports turn commas into semicolons,
straightened quotes keep the length, and a loop variable gets its value by a fix that makes the text
longer. The measure is a weighted count: a comma weighs two, a semicolon, an equals sign and a curly
quote one each, and a semicolon that follows an equals sign with only blanks between them one more,
which is what the loop fix takes away. Whether a semicolon counts twice depends on the text before
it, so the count carries along whether an equals sign has just been read.
-/

namespace SourceRepair

/-- The text after the fixes that a scan finds have been applied. -/
def fixOnce (rules : List Rule) (text : List Char) : List Char :=
  (applyFixes text (scan rules text)).1

/-- How many of the fixes that a scan finds are applied. -/
def fixCount (rules : List Rule) (text : List Char) : Nat :=
  (applyFixes text (scan rules text)).2

namespace TypeScript

open CharClass

/-! ## The weight of a text -/

/-- Whether an equals sign ends the text, apart from blanks; `assigned` says so of the text before
it. -/
def assignedAfter (assigned : Bool) : List Char → Bool
  | [] => assigned
  | c :: rest => assignedAfter (c == '=' || (assigned && (c == ' ' || c == '\t'))) rest

/-- What one character weighs, wherever it stands. -/
def charWeight (c : Char) : Nat :=
  if c = ',' then 2
  else if c = ';' ∨ c = '=' ∨ c ∈ "\u2018\u2019\u201C\u201D".toList then 1
  else 0

/-- What a text weighs behind a text that ends in an equals sign or not. -/
def weightFrom (assigned : Bool) : List Char → Nat
  | [] => 0
  | c :: rest =>
    charWeight c + (if assigned && c == ';' then 1 else 0)
      + weightFrom (c == '=' || (assigned && (c == ' ' || c == '\t'))) rest

/-- What a text weighs. -/
def weight (text : List Char) : Nat :=
  weightFrom false text

@[simp] theorem assignedAfter_nil (assigned : Bool) : assignedAfter assigned [] = assigned := rfl

@[simp] theorem weightFrom_nil (assigned : Bool) : weightFrom assigned [] = 0 := rfl

@[simp] theorem assignedAfter_append (assigned : Bool) (s t : List Char) :
    assignedAfter assigned (s ++ t) = assignedAfter (assignedAfter assigned s) t := by
  induction s generalizing assigned with
  | nil => rfl
  | cons c rest ih => exact ih _

@[simp] theorem weightFrom_append (assigned : Bool) (s t : List Char) :
    weightFrom assigned (s ++ t)
      = weightFrom assigned s + weightFrom (assignedAfter assigned s) t := by
  induction s generalizing assigned with
  | nil => simp
  | cons c rest ih =>
    rw [List.cons_append, weightFrom, weightFrom, ih, assignedAfter]
    omega

/-- A text ends in an equals sign whatever stands before it, or because of what does. -/
theorem assignedAfter_mono {a b : Bool} (hab : a ≤ b) (text : List Char) :
    assignedAfter a text ≤ assignedAfter b text := by
  induction text generalizing a b with
  | nil => exact hab
  | cons c rest ih =>
    refine ih ?_
    cases a <;> cases b <;> revert hab <;> cases (c == '=') <;> cases (c == ' ' || c == '\t') <;>
      decide

/-- An equals sign in front of a text makes it no lighter. -/
theorem weightFrom_mono {a b : Bool} (hab : a ≤ b) (text : List Char) :
    weightFrom a text ≤ weightFrom b text := by
  induction text generalizing a b with
  | nil => exact Nat.le_refl 0
  | cons c rest ih =>
    have hstate : (c == '=' || (a && (c == ' ' || c == '\t')))
        ≤ (c == '=' || (b && (c == ' ' || c == '\t'))) := by
      have h := assignedAfter_mono hab [c]
      exact h
    have hsemicolon : (if a && c == ';' then 1 else 0) ≤ (if b && c == ';' then 1 else 0) := by
      cases a
      · simp
      · rw [show b = true from hab rfl]
    rw [weightFrom, weightFrom]
    have := ih hstate
    omega

/-- Blanks weigh nothing, and an equals sign in front of them counts behind them. -/
theorem assignedAfter_blank {text : List Char} (h : IsBlank text) (assigned : Bool) :
    assignedAfter assigned text = assigned ∧ weightFrom assigned text = 0 := by
  induction text generalizing assigned with
  | nil => exact ⟨rfl, rfl⟩
  | cons c rest ih =>
    have hrest : IsBlank rest := fun d hd => h d (List.mem_cons_of_mem c hd)
    rcases h c List.mem_cons_self with rfl | rfl
    · simpa [assignedAfter, weightFrom, charWeight] using ih hrest assigned
    · simpa [assignedAfter, weightFrom, charWeight] using ih hrest assigned

/-- A text without equals signs and semicolons weighs the same wherever it stands. -/
theorem weightFrom_of_forall_ne {text : List Char} (h : ∀ c ∈ text, c ≠ '=' ∧ c ≠ ';')
    (assigned : Bool) : weightFrom assigned text = weight text := by
  induction text generalizing assigned with
  | nil => rfl
  | cons c rest ih =>
    obtain ⟨-, hsemicolon⟩ := h c List.mem_cons_self
    have hrest := ih fun d hd => h d (List.mem_cons_of_mem c hd)
    rw [weight, weightFrom, weightFrom, hrest, hrest]
    simp [hsemicolon]

/-- A character that is no equals sign and no blank ends an assignment. -/
theorem assigned_eq_false {c : Char} (h : c ≠ '=' ∧ c ≠ ' ' ∧ c ≠ '\t') (assigned : Bool) :
    (c == '=' || (assigned && (c == ' ' || c == '\t'))) = false := by
  obtain ⟨hequals, hspace, htab⟩ := h
  rw [beq_false_of_ne hequals, beq_false_of_ne hspace, beq_false_of_ne htab]
  simp

theorem assignedAfter_cons_of_ne {c : Char} (h : c ≠ '=' ∧ c ≠ ' ' ∧ c ≠ '\t') (assigned : Bool)
    (rest : List Char) : assignedAfter assigned (c :: rest) = assignedAfter false rest := by
  rw [assignedAfter, assigned_eq_false h]

theorem weightFrom_cons_of_ne {c : Char} (h : c ≠ '=' ∧ c ≠ ' ' ∧ c ≠ '\t') (hsemicolon : c ≠ ';')
    (assigned : Bool) (rest : List Char) :
    weightFrom assigned (c :: rest) = charWeight c + weightFrom false rest := by
  rw [weightFrom, assigned_eq_false h, beq_false_of_ne hsemicolon]
  simp

/-! ## Fixes make a text lighter -/

/-- Wherever `old` stands, `new` weighs less and does not end in an equals sign unless `old`
does. -/
def Lightens (old new : List Char) : Prop :=
  ∀ assigned, weightFrom assigned new < weightFrom assigned old ∧
    assignedAfter assigned new ≤ assignedAfter assigned old

/-- One mark in place of several. -/
theorem lightens_marks {mark : Char} (hne : mark ≠ '=' ∧ mark ≠ ' ' ∧ mark ≠ '\t')
    (hweight : 0 < charWeight mark) (gap more : List Char) :
    Lightens (mark :: (gap ++ mark :: more)) [mark] := by
  intro assigned
  have hsplit := weightFrom_append assigned [mark] (gap ++ mark :: more)
  have hmore : 0 < weightFrom (assignedAfter assigned [mark]) (gap ++ mark :: more) := by
    rw [weightFrom_append, weightFrom]
    omega
  refine ⟨?_, ?_⟩
  · rw [List.singleton_append] at hsplit
    omega
  · rw [assignedAfter_cons_of_ne hne]
    exact Bool.false_le _

theorem lightens_duplicateComma {m : Match} {replacement : List Char}
    (hm : m.Of duplicateComma.pattern)
    (h : duplicateComma.fixer.bind (· m) = some replacement) : Lightens m.text replacement := by
  obtain ⟨gap, more, htext, -, -, rfl⟩ := duplicateComma_shape hm h
  rw [htext]
  exact lightens_marks (by decide) (by decide) gap more

theorem lightens_duplicateSemicolon {m : Match} {replacement : List Char}
    (hm : m.Of duplicateSemicolon.pattern)
    (h : duplicateSemicolon.fixer.bind (· m) = some replacement) : Lightens m.text replacement := by
  obtain ⟨gap, more, htext, -, -, rfl⟩ := duplicateSemicolon_shape hm h
  rw [htext]
  exact lightens_marks (by decide) (by decide) gap more

/-- A semicolon in place of a comma, behind a character that is no part of an assignment. -/
theorem lightens_semicolon {head front back : List Char} {last : Char}
    (hlast : last ≠ '=' ∧ last ≠ ' ' ∧ last ≠ '\t') :
    Lightens ((head ++ [last]) ++ (front ++ ',' :: back)) ((head ++ [last]) ++ [';']) := by
  obtain ⟨hequals, hspace, htab⟩ := hlast
  intro assigned
  refine ⟨?_, ?_⟩
  · have hstate : assignedAfter assigned (head ++ [last]) = false := by
      simp [assignedAfter, hequals, hspace, htab]
    rw [weightFrom_append, weightFrom_append, hstate]
    simp [weightFrom, charWeight]
    omega
  · simp [assignedAfter]

theorem lightens_importTrailingComma {m : Match} {replacement : List Char}
    (hm : m.Of importTrailingComma.pattern)
    (h : importTrailingComma.fixer.bind (· m) = some replacement) :
    Lightens m.text replacement := by
  obtain ⟨head, quote, front, back, htext, hquote, -, -, rfl⟩ := importTrailingComma_shape hm h
  rw [htext]
  apply lightens_semicolon
  rcases hquote with rfl | rfl <;> decide

theorem lightens_exportListTrailingComma {m : Match} {replacement : List Char}
    (hm : m.Of exportListTrailingComma.pattern)
    (h : exportListTrailingComma.fixer.bind (· m) = some replacement) :
    Lightens m.text replacement := by
  obtain ⟨head, front, back, htext, -, -, rfl⟩ := exportListTrailingComma_shape hm h
  rw [htext]
  exact lightens_semicolon (by decide)

theorem lightens_emptyForInitializer {m : Match} {replacement : List Char}
    (hm : m.Of emptyForInitializer.pattern)
    (h : emptyForInitializer.fixer.bind (· m) = some replacement) :
    Lightens m.text replacement := by
  obtain ⟨gap₁, gap₂, keyword, gap₃, name, gap₄, gap₅, htext, hgap₁, hgap₂, hgap₃, hgap₄, hgap₅,
    hkeyword, hname, rfl⟩ := emptyForInitializer_shape hm h
  intro assigned
  -- names hold no equals sign and no semicolon, so they weigh the same before and after
  have hname' : ∀ c ∈ name, c ≠ '=' ∧ c ≠ ';' := by
    intro c hc
    refine ⟨?_, ?_⟩ <;> rintro rfl <;> exact absurd (hname _ hc) (by decide)
  have hkeyword' : ∀ c ∈ keyword, c ≠ '=' ∧ c ≠ ';' := by
    rcases hkeyword with rfl | rfl <;> simp
  rw [htext]
  refine ⟨?_, ?_⟩
  · simp only [weightFrom_append, assignedAfter_append, weightFrom_of_forall_ne hname',
      weightFrom_of_forall_ne hkeyword', (assignedAfter_blank hgap₅ _).1,
      (assignedAfter_blank hgap₅ _).2]
    simp [weightFrom, charWeight, assignedAfter]
    omega
  · simp [assignedAfter]

theorem lightens_braceLeadingComma {m : Match} {replacement : List Char}
    (hm : m.Of braceLeadingComma.pattern)
    (h : braceLeadingComma.fixer.bind (· m) = some replacement) : Lightens m.text replacement := by
  obtain ⟨front, back, htext, hfront, -, hreplacement⟩ := braceLeadingComma_shape hm h
  intro assigned
  rw [htext]
  rcases hreplacement with rfl | rfl
  · refine ⟨?_, by simp [assignedAfter]⟩
    simp [weightFrom, charWeight]
  · refine ⟨?_, by simp [assignedAfter]⟩
    simp [weightFrom, charWeight]

theorem lightens_smartQuotes {m : Match} {replacement : List Char}
    (hm : m.Of smartQuotes.pattern)
    (h : smartQuotes.fixer.bind (· m) = some replacement) : Lightens m.text replacement := by
  obtain ⟨opening, body, closing, quote, htext, hopening, hclosing, hquote, -, rfl⟩ :=
    smartQuotes_shape hm h
  have hcurly : ∀ c, IsCurly c →
      charWeight c = 1 ∧ (c ≠ '=' ∧ c ≠ ' ' ∧ c ≠ '\t') ∧ c ≠ ';' := by
    unfold IsCurly
    simp [charWeight]
  have hstraight : charWeight quote = 0 ∧ (quote ≠ '=' ∧ quote ≠ ' ' ∧ quote ≠ '\t') ∧
      quote ≠ ';' := by
    rcases hquote with rfl | rfl <;> simp [charWeight]
  obtain ⟨hopeningWeight, hopeningNe, hopeningSemicolon⟩ := hcurly opening hopening
  obtain ⟨hclosingWeight, hclosingNe, hclosingSemicolon⟩ := hcurly closing hclosing
  obtain ⟨hquoteWeight, hquoteNe, hquoteSemicolon⟩ := hstraight
  intro assigned
  rw [htext]
  refine ⟨?_, ?_⟩
  · rw [weightFrom_cons_of_ne hquoteNe hquoteSemicolon,
      weightFrom_cons_of_ne hopeningNe hopeningSemicolon, weightFrom_append, weightFrom_append,
      weightFrom_cons_of_ne hquoteNe hquoteSemicolon,
      weightFrom_cons_of_ne hclosingNe hclosingSemicolon, hopeningWeight, hclosingWeight,
      hquoteWeight]
    omega
  · rw [← List.cons_append, assignedAfter_append, assignedAfter_cons_of_ne hquoteNe]
    exact Bool.false_le _

theorem lightens_emptyDestructuring {m : Match} {replacement : List Char}
    (hm : m.Of emptyDestructuring.pattern)
    (h : emptyDestructuring.fixer.bind (· m) = some replacement) :
    Lightens m.text replacement := by
  obtain ⟨indent, keyword, gap₁, binding, gap₂, gap₃, expression, htext, hindent, -, -, hgap₃, -, -,
    -, -, rfl⟩ := emptyDestructuring_shape hm h
  intro assigned
  rw [htext]
  -- the equals sign that goes weighs one, and may have added to the weight of the expression
  have hstate : assignedAfter assigned indent ≤ true := Bool.le_true _
  have hweight := weightFrom_mono hstate expression
  have hafter := assignedAfter_mono hstate expression
  refine ⟨?_, ?_⟩
  · simp only [weightFrom_append, assignedAfter_append, (assignedAfter_blank hgap₃ _).1,
      (assignedAfter_blank hgap₃ _).2]
    simp [weightFrom, charWeight, assignedAfter]
    omega
  · simp only [assignedAfter_append, (assignedAfter_blank hgap₃ _).1]
    simpa [assignedAfter] using hafter

/-- Every fix of a static rule makes the text lighter. -/
theorem lightens_of_fixIn {text old new : List Char} (h : FixIn catalog.staticRules text old new) :
    Lightens old new := by
  obtain ⟨rule, hrule, m, hm, rfl, hsuggest⟩ := h
  obtain ⟨hof, -, -⟩ := Rule.of_mem_codeMatches hm
  obtain ⟨hfix, -⟩ := Option.filter_eq_some_iff.mp hsuggest
  rw [staticRules_eq] at hrule
  simp only [List.mem_cons, List.not_mem_nil, or_false] at hrule
  rcases hrule with rfl | rfl | rfl | rfl | rfl | rfl | rfl | rfl
  exacts [lightens_duplicateComma hof hfix, lightens_duplicateSemicolon hof hfix,
    lightens_importTrailingComma hof hfix, lightens_exportListTrailingComma hof hfix,
    lightens_emptyForInitializer hof hfix, lightens_braceLeadingComma hof hfix,
    lightens_smartQuotes hof hfix, lightens_emptyDestructuring hof hfix]

/-! ## Passes -/

/-- Replacing stretches by lighter ones makes a text lighter by at least their number. -/
theorem weightFrom_add_le_of_spliced {fix : List Char → List Char → Prop}
    (hfix : ∀ old new, fix old new → Lightens old new) {text out : List Char} {count : Nat}
    (h : Spliced fix text out count) {a b : Bool} (hab : a ≤ b) :
    weightFrom a out + count ≤ weightFrom b text := by
  induction h generalizing a b with
  | done text => exact weightFrom_mono hab text
  | @replace kept old new rest out count hchange _ ih =>
    have hkept := weightFrom_mono hab kept
    have hstate := assignedAfter_mono hab kept
    obtain ⟨hweight, hafter⟩ := hfix old new hchange (assignedAfter a kept)
    have hold := weightFrom_mono hstate old
    have hrest := ih (le_trans hafter (assignedAfter_mono hstate old))
    simp only [weightFrom_append]
    omega

/-- A pass makes a text lighter by at least the number of fixes that it applies. -/
theorem weight_fixOnce_add_le (text : List Char) :
    weight (fixOnce catalog.staticRules text) + fixCount catalog.staticRules text ≤ weight text :=
  weightFrom_add_le_of_spliced (fun _ _ => lightens_of_fixIn)
    (applyFixes_scan_spliced catalog.staticRules text) (Bool.false_le false)

/-- Passes in a row make a text lighter by at least the number of fixes that they apply. -/
theorem weight_iterate_add_sum_le (text : List Char) (n : Nat) :
    weight ((fixOnce catalog.staticRules)^[n] text)
      + ∑ i ∈ Finset.range n, fixCount catalog.staticRules ((fixOnce catalog.staticRules)^[i] text)
      ≤ weight text := by
  induction n with
  | zero => simp
  | succ n ih =>
    have hpass := weight_fixOnce_add_le ((fixOnce catalog.staticRules)^[n] text)
    rw [Function.iterate_succ_apply', Finset.sum_range_succ]
    omega

/-- No pass makes a text heavier. -/
theorem weight_iterate_antitone (text : List Char) :
    Antitone fun n => weight ((fixOnce catalog.staticRules)^[n] text) := by
  refine antitone_nat_of_succ_le fun n => ?_
  have hpass := weight_fixOnce_add_le ((fixOnce catalog.staticRules)^[n] text)
  rw [Function.iterate_succ_apply']
  omega

/-- A pass that applies a fix keeps all later texts apart from all earlier ones. -/
theorem weight_iterate_lt {text : List Char} {i k j : Nat} (hik : i ≤ k) (hkj : k < j)
    (hcount : 0 < fixCount catalog.staticRules ((fixOnce catalog.staticRules)^[k] text)) :
    weight ((fixOnce catalog.staticRules)^[j] text)
      < weight ((fixOnce catalog.staticRules)^[i] text) := by
  have hbefore := weight_iterate_antitone text hik
  have hafter := weight_iterate_antitone text (Nat.succ_le_of_lt hkj)
  have hpass := weight_fixOnce_add_le ((fixOnce catalog.staticRules)^[k] text)
  simp only [Nat.succ_eq_add_one, Function.iterate_succ_apply'] at hbefore hafter
  omega

/-- A text in which no fix is applied has no finding with a fix. -/
theorem forall_fix_eq_none_of_fixCount_eq_zero {rules : List Rule} {text : List Char}
    (h : fixCount rules text = 0) : ∀ finding ∈ scan rules text, finding.fix = none := by
  by_contra hfix
  push Not at hfix
  exact absurd (applyFixes_count_pos hfix) (by rw [← fixCount, h]; exact Nat.lt_irrefl 0)

/-- Some pass among the first ones, as many as the text weighs, finds nothing to fix. -/
theorem exists_le_weight_fixCount_eq_zero (text : List Char) :
    ∃ n ≤ weight text,
      fixCount catalog.staticRules ((fixOnce catalog.staticRules)^[n] text) = 0 := by
  by_contra hnone
  push Not at hnone
  have hsum := weight_iterate_add_sum_le text (weight text + 1)
  have hone : ∀ i ∈ Finset.range (weight text + 1),
      1 ≤ fixCount catalog.staticRules ((fixOnce catalog.staticRules)^[i] text) := by
    intro i hi
    exact Nat.pos_of_ne_zero (hnone i (Nat.le_of_lt_succ (Finset.mem_range.mp hi)))
  have hlow := Finset.card_nsmul_le_sum _ _ _ hone
  rw [Finset.card_range, smul_eq_mul, Nat.mul_one] at hlow
  omega

/-- Passes with the static rules end: after no more of them than the text weighs a scan finds
nothing to fix. A text never comes up again once a fix has been applied to it or to one that came
after it. -/
theorem fixOnce_iterate_terminates (text : List Char) :
    (∃ n ≤ weight text, ∀ finding ∈
        scan catalog.staticRules ((fixOnce catalog.staticRules)^[n] text), finding.fix = none) ∧
      ∀ i k j, i ≤ k → k < j →
        0 < fixCount catalog.staticRules ((fixOnce catalog.staticRules)^[k] text) →
        (fixOnce catalog.staticRules)^[j] text ≠ (fixOnce catalog.staticRules)^[i] text := by
  refine ⟨?_, ?_⟩
  · obtain ⟨n, hn, hcount⟩ := exists_le_weight_fixCount_eq_zero text
    exact ⟨n, hn, forall_fix_eq_none_of_fixCount_eq_zero hcount⟩
  · intro i k j hik hkj hcount hsame
    have hlt := weight_iterate_lt hik hkj hcount
    rw [hsame] at hlt
    exact Nat.lt_irrefl _ hlt

/-- Two commas become one, and the text with two of them does not come back. -/
theorem fixOnce_iterate_terminates_twoCommas :
    0 < fixCount catalog.staticRules "f(1,, 2)".toList ∧
      ∀ j, 0 < j → (fixOnce catalog.staticRules)^[j] "f(1,, 2)".toList ≠ "f(1,, 2)".toList := by
  have hfindings : computedFindings catalog.staticRules "f(1,, 2)".toList =
      [⟨"duplicate-comma", .error, 1, 4, ",,".toList, "Runs of commas collapse to one",
        some ⟨3, 5, ",".toList⟩⟩] := by
    rw [staticRules_eq]
    decide +kernel
  have hcount : 0 < fixCount catalog.staticRules "f(1,, 2)".toList := by
    rw [fixCount, scan_eq_singleton hfindings, applyFixes_singleton rfl]
    decide +kernel
  exact ⟨hcount, fun j hj =>
    (fixOnce_iterate_terminates "f(1,, 2)".toList).2 0 0 j (Nat.le_refl 0) hj hcount⟩

/-- A text without fixes stays as it is. -/
theorem fixOnce_of_fixCount_eq_zero {rules : List Rule} {text : List Char}
    (h : fixCount rules text = 0) : fixOnce rules text = text := by
  rw [fixOnce, applyFixes_of_forall_none (forall_fix_eq_none_of_fixCount_eq_zero h)]

/-- As many passes as the text weighs are enough: whatever number of passes follows them applies no
fix and changes nothing. -/
theorem fixOnce_iterate_weight_idempotent (text : List Char) (n : Nat) :
    fixCount catalog.staticRules
        ((fixOnce catalog.staticRules)^[weight text + n] text) = 0 ∧
      (fixOnce catalog.staticRules)^[weight text + n] text
        = (fixOnce catalog.staticRules)^[weight text] text := by
  obtain ⟨m, hm, hcount⟩ := exists_le_weight_fixCount_eq_zero text
  -- the text that pass `m` leaves is a fixed point, and the others come after it
  have hstays : ∀ k, (fixOnce catalog.staticRules)^[k + m] text
      = (fixOnce catalog.staticRules)^[m] text := by
    intro k
    rw [Function.iterate_add_apply]
    exact Function.iterate_fixed (fixOnce_of_fixCount_eq_zero hcount) k
  obtain ⟨k, hk⟩ := Nat.exists_eq_add_of_le' hm
  have hlast : (fixOnce catalog.staticRules)^[weight text + n] text
      = (fixOnce catalog.staticRules)^[m] text := by
    rw [hk, Nat.add_right_comm]
    exact hstays (k + n)
  refine ⟨?_, ?_⟩
  · rw [hlast]
    exact hcount
  · rw [hlast, hk]
    exact (hstays k).symm

/-- One pass is not always enough. The apostrophe between the first quotes opens a string up to the
end of the line, which hides the second quotes from the first scan. Once the first quotes are
straight the apostrophe stands inside a string, and the second quotes are code. -/
theorem fixOnce_not_idempotent :
    ¬ ∀ text, ∀ finding ∈ scan catalog.staticRules (fixOnce catalog.staticRules text),
      finding.fix = none := by
  have hfindings : computedFindings catalog.staticRules
      "const a = \u201Cit's\u201D, b = \u2018x\u2019;".toList =
        [⟨"smart-quotes", .warning, 1, 11, "\u201Cit's\u201D".toList,
          "Curly quotes used as string delimiters", some ⟨10, 20, "\"it's\"".toList⟩⟩] := by
    rw [staticRules_eq]
    decide +kernel
  have hpass : fixOnce catalog.staticRules
      "const a = \u201Cit's\u201D, b = \u2018x\u2019;".toList
        = "const a = \"it's\", b = \u2018x\u2019;".toList := by
    rw [fixOnce, scan_eq_singleton hfindings, applyFixes_singleton rfl]
    decide +kernel
  have hmore : computedFindings catalog.staticRules
      "const a = \"it's\", b = \u2018x\u2019;".toList =
        [⟨"smart-quotes", .warning, 1, 23, "\u2018x\u2019".toList,
          "Curly quotes used as string delimiters", some ⟨22, 29, "'x'".toList⟩⟩] := by
    rw [staticRules_eq]
    decide +kernel
  intro hclean
  have hnone := hclean "const a = \u201Cit's\u201D, b = \u2018x\u2019;".toList
  rw [hpass, scan_eq_singleton hmore] at hnone
  exact absurd (hnone _ List.mem_cons_self) (Option.some_ne_none _)

end TypeScript
end SourceRepair
