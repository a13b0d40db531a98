import SourceRepair.Proofs.Edit.Planning
import SourceRepair.Rule.Literal

/-!
# Catalogs with one more rule

A rule that is registered for a code comes behind all rules that the code has already. So it is
asked only about windows that every one of those passes over (`Repair.first?_append_of_passesOver`),
and a diagnostic that is decided without it keeps its decision: one that has a repair, and one that
a rule without a fix leaves to a person (`insert_keeps_decided`). A plan asks about nothing but
diagnostics of its batch, so it does not change where none of them has the code
(`planEdits_congr`).
-/

namespace SourceRepair

variable {context : LineContext} {rules front back : List Rule} {rule : Rule}

/-- The rule neither repairs a window nor points a match in it out. -/
def Rule.PassesOver (rule : Rule) (context : LineContext) : Prop :=
  rule.evaluate context = .unmatched ∨ rule.evaluate context = .unchanged

namespace Repair

/-- The search among some rules ends at one that only points a match out. -/
def EndsAtDetector (context : LineContext) (rules : List Rule) : Prop :=
  ∃ front detector back, rules = front ++ detector :: back ∧
    detector.evaluate context = .flagged ∧ ∀ rule ∈ front, rule.PassesOver context

/-- What one rule makes of a window if no other is asked. -/
def alone? (context : LineContext) (rule : Rule) : Option Repair :=
  match rule.evaluate context with
  | .changed text => some ⟨rule.name, rule.window.linesBefore, text⟩
  | _ => none

theorem first?_singleton (context : LineContext) (rule : Rule) :
    first? context [rule] = alone? context rule := by
  rw [first?, alone?]
  cases rule.evaluate context <;> rfl

/-- Rules that pass a window over are as good as none. -/
theorem first?_append_of_passesOver (h : ∀ rule ∈ front, rule.PassesOver context)
    (back : List Rule) : first? context (front ++ back) = first? context back := by
  induction front with
  | nil => rfl
  | cons rule more ih =>
    obtain ⟨hrule, hmore⟩ := List.forall_mem_cons.mp h
    rw [List.cons_append, first?]
    rcases hrule with hrule | hrule
    · rw [hrule]
      exact ih hmore
    · rw [hrule]
      exact ih hmore

/-- A search comes to a repair, ends at a detector, or has every rule pass the window over. -/
theorem first?_cases (context : LineContext) (rules : List Rule) :
    (∃ front rule back text, rules = front ++ rule :: back ∧
        (∀ other ∈ front, other.PassesOver context) ∧ rule.evaluate context = .changed text) ∨
      EndsAtDetector context rules ∨ ∀ rule ∈ rules, rule.PassesOver context := by
  induction rules with
  | nil => exact .inr (.inr fun rule h => absurd h List.not_mem_nil)
  | cons rule more ih =>
    have later (hrule : rule.PassesOver context) :
        (∃ front rule' back text, rule :: more = front ++ rule' :: back ∧
          (∀ other ∈ front, other.PassesOver context) ∧ rule'.evaluate context = .changed text) ∨
        EndsAtDetector context (rule :: more) ∨
          ∀ other ∈ rule :: more, other.PassesOver context := by
      rcases ih with ⟨front, rule', back, text, rfl, hfront, htext⟩ |
        ⟨front, detector, back, rfl, hflagged, hfront⟩ | hmore
      · exact .inl ⟨rule :: front, rule', back, text, rfl,
          List.forall_mem_cons.mpr ⟨hrule, hfront⟩, htext⟩
      · exact .inr (.inl ⟨rule :: front, detector, back, rfl, hflagged,
          List.forall_mem_cons.mpr ⟨hrule, hfront⟩⟩)
      · exact .inr (.inr (List.forall_mem_cons.mpr ⟨hrule, hmore⟩))
    cases hrule : rule.evaluate context with
    | unmatched => exact later (.inl hrule)
    | unchanged => exact later (.inr hrule)
    | flagged => exact .inr (.inl ⟨[], rule, more, rfl, hrule, by simp⟩)
    | changed text => exact .inl ⟨[], rule, more, text, rfl, by simp, hrule⟩

/-- A search that ends at a detector finds nothing, whatever rules come behind. -/
theorem EndsAtDetector.first?_append (h : EndsAtDetector context rules) (more : List Rule) :
    first? context (rules ++ more) = none := by
  obtain ⟨front, detector, back, rfl, hflagged, hfront⟩ := h
  rw [List.append_assoc, first?_append_of_passesOver hfront, List.cons_append, first?, hflagged]

/-- Further rules are asked only if those before them come to nothing and no detector ends the
search. -/
theorem first?_append (context : LineContext) (rules more : List Rule) :
    ((first? context rules).isSome ∨ EndsAtDetector context rules →
        first? context (rules ++ more) = first? context rules) ∧
      (first? context rules = none → ¬EndsAtDetector context rules →
        first? context (rules ++ more) = first? context more) := by
  rcases first?_cases context rules with
    ⟨front, rule, back, text, rfl, hfront, htext⟩ | hends | hpass
  · have hfound (behind : List Rule) : first? context (front ++ rule :: behind)
        = some ⟨rule.name, rule.window.linesBefore, text⟩ := by
      rw [first?_append_of_passesOver hfront, first?, htext]
    rw [List.append_assoc, List.cons_append, hfound, hfound]
    exact ⟨fun _ => rfl, fun hnone => absurd hnone (by simp)⟩
  · have hnone : first? context rules = none := by
      simpa using hends.first?_append []
    exact ⟨fun _ => by rw [hends.first?_append, hnone], fun _ hnot => absurd hends hnot⟩
  · have hnone : first? context rules = none := by
      rw [← List.append_nil rules, first?_append_of_passesOver hpass]
      rfl
    refine ⟨?_, fun _ _ => first?_append_of_passesOver hpass more⟩
    rintro (hsome | ⟨front, detector, back, rfl, hflagged, -⟩)
    · simp [hnone] at hsome
    · -- the detector would have to pass the window over
      rcases hpass detector (by simp) with h | h <;> simp [hflagged] at h

end Repair

namespace Catalog

variable {catalog other : Catalog} {code : String} {lines : List (List Char)}
  {batch group : List Diagnostic}

/-- A registered rule comes behind all others for its code, and other codes do not see it. -/
theorem rulesFor_insert (catalog : Catalog) (code : String) (rule : Rule) (asked : String) :
    (catalog.insert code rule).rulesFor asked
      = catalog.rulesFor asked ++ if asked = code then [rule] else [] := by
  have hadded : specific (catalog.insert code rule) asked
      = catalog.specific asked ++ if asked = code then [rule] else [] := by
    unfold specific insert
    rw [List.filter_append, List.map_append]
    by_cases hcode : asked = code
    · simp [hcode]
    · simp [hcode, Ne.symm hcode]
  rw [rulesFor, hadded, rulesFor, List.append_assoc]
  rfl

/-! ## Plans of two catalogs -/

section Agreeing

variable (h : ∀ d ∈ group, ∀ previous current next,
  catalog.repair? d previous current next = other.repair? d previous current next)

include h

/-- Catalogs that repair the diagnostics of a line alike fold it alike. -/
theorem foldLine_congr (previous next : Option (List Char)) (text : List Char) :
    catalog.foldLine previous next group text = other.foldLine previous next group text := by
  induction group generalizing text with
  | nil => rfl
  | cons d more ih =>
    obtain ⟨hd, hmore⟩ := List.forall_mem_cons.mp h
    rw [foldLine, foldLine, hd]
    cases other.repair? d previous text next with
    | none => exact ih hmore text
    | some repair => simp only [ih hmore]

theorem planLine?_congr (claimed : Option Nat) :
    catalog.planLine? lines claimed group = other.planLine? lines claimed group := by
  simp only [planLine?, foldLine_congr h]

end Agreeing

/-- Catalogs that repair every diagnostic of a batch alike plan the same edits for it. -/
theorem planEdits_congr (h : ∀ d ∈ batch, ∀ previous current next,
      catalog.repair? d previous current next = other.repair? d previous current next) :
    catalog.planEdits lines batch = other.planEdits lines batch := by
  have hgroups : ∀ groups claimed, (∀ group ∈ groups, ∀ d ∈ group, d ∈ batch) →
      catalog.planGroups lines claimed groups = other.planGroups lines claimed groups := by
    intro groups
    induction groups with
    | nil => exact fun _ _ => rfl
    | cons group more ih =>
      intro claimed hbatch
      obtain ⟨hgroup, hmore⟩ := List.forall_mem_cons.mp hbatch
      rw [planGroups, planGroups, planLine?_congr fun d hd => h d (hgroup d hd)]
      cases other.planLine? lines claimed group with
      | none => exact ih claimed hmore
      | some edit => exact congrArg (edit :: ·) (ih _ hmore)
  rw [planEdits_eq, planEdits_eq]
  exact hgroups _ none fun _ hgroup _ hd => mem_of_mem_lineGroups hgroup hd

/-! ## One rule more -/

/-- A diagnostic of another code is repaired as before. -/
theorem repair?_insert_of_ne {d : Diagnostic} (h : d.code ≠ code) (rule : Rule)
    (previous : Option (List Char)) (current : List Char) (next : Option (List Char)) :
    (catalog.insert code rule).repair? d previous current next
      = catalog.repair? d previous current next := by
  rw [repair?, rulesFor_insert, if_neg h, List.append_nil]
  rfl

/-- A rule registered for a code changes nothing for diagnostics of other codes, for those that have
a repair without it and for those that a detector leaves to a person; for all others of the code it
decides alone. A batch without the code has the same plan with and without the rule. -/
theorem insert_keeps_decided (catalog : Catalog) (code : String) (rule : Rule) :
    (∀ (d : Diagnostic) (previous : Option (List Char)) (current : List Char)
        (next : Option (List Char)),
      let context : LineContext := ⟨previous, current, next, some d⟩
      let before := catalog.repair? d previous current next
      let decided := d.code ≠ code ∨ before.isSome ∨
        Repair.EndsAtDetector context (catalog.rulesFor d.code)
      (decided → (catalog.insert code rule).repair? d previous current next = before) ∧
        (¬decided → (catalog.insert code rule).repair? d previous current next
          = Repair.alone? context rule)) ∧
      ∀ (lines : List (List Char)) (batch : List Diagnostic), (∀ d ∈ batch, d.code ≠ code) →
        (catalog.insert code rule).planEdits lines batch = catalog.planEdits lines batch := by
  constructor
  · intro d previous current next context before decided
    by_cases hcode : d.code = code
    · have hafter : (catalog.insert code rule).repair? d previous current next
          = Repair.first? context (catalog.rulesFor d.code ++ [rule]) := by
        rw [repair?, rulesFor_insert, if_pos hcode]
      obtain ⟨hkept, hasked⟩ := Repair.first?_append context (catalog.rulesFor d.code) [rule]
      rw [hafter]
      refine ⟨fun hdecided => hkept (hdecided.resolve_left fun hne => hne hcode), fun hopen => ?_⟩
      obtain ⟨-, hopen⟩ := not_or.mp hopen
      obtain ⟨hnone, hends⟩ := not_or.mp hopen
      rw [hasked (Option.not_isSome_iff_eq_none.mp hnone) hends, Repair.first?_singleton]
    · exact ⟨fun _ => repair?_insert_of_ne hcode rule previous current next,
        fun hopen => absurd (.inl hcode) hopen⟩
  · exact fun lines batch hcodes => planEdits_congr fun d hd previous current next =>
      repair?_insert_of_ne (hcodes d hd) rule previous current next

/-- Behind a detector a new rule repairs the line on which the detector is silent, and not the other
one; a batch with another code is planned as before. -/
theorem insert_keeps_decided_detector :
    let point : PlainRule := { name := "point", text := "x", code := some "E1" }
    let drop : PlainRule := { name := "drop", text := ";", code := some "E1", fixer := some .drop }
    let catalog := ofPlainRules [point]
    let extended := catalog.insert "E1" drop.toRule
    let d : Diagnostic := ⟨⟨"a.ts"⟩, 1, 1, "E1", ""⟩
    let elsewhere : Diagnostic := { d with code := "E2" }
    Repair.EndsAtDetector ⟨none, "x;".toList, none, some d⟩ (catalog.rulesFor d.code) ∧
      extended.repair? d none "x;".toList none = none ∧
      extended.repair? d none ";;".toList none = some ⟨"drop", 0, []⟩ ∧
      (∀ d ∈ [elsewhere], d.code ≠ "E1") ∧
      extended.planEdits [";;".toList] [elsewhere]
        = catalog.planEdits [";;".toList] [elsewhere] := by
  intro point drop catalog extended d elsewhere
  obtain ⟨hrepairs, hplans⟩ := insert_keeps_decided catalog "E1" drop.toRule
  have hpoint : point.toRule.evaluate ⟨none, "x;".toList, none, some d⟩ = .flagged := by cbv
  have hsilent : point.toRule.evaluate ⟨none, ";;".toList, none, some d⟩ = .unmatched := by cbv
  have hrules : catalog.rulesFor d.code = [point.toRule] := rfl
  have hends : Repair.EndsAtDetector ⟨none, "x;".toList, none, some d⟩ (catalog.rulesFor d.code) :=
    ⟨[], point.toRule, [], hrules, hpoint, by simp⟩
  have hopen : ¬Repair.EndsAtDetector ⟨none, ";;".toList, none, some d⟩
      (catalog.rulesFor d.code) := by
    rintro ⟨front, detector, back, hsplit, hflagged, -⟩
    have hmem : detector ∈ [point.toRule] := hrules ▸ hsplit ▸ by simp
    rw [List.mem_singleton.mp hmem, hsilent] at hflagged
    exact Rewrite.noConfusion hflagged
  have hcodes : ∀ d ∈ [elsewhere], d.code ≠ "E1" := by decide
  have hfirst := (hrepairs d none "x;".toList none).1 (.inr (.inr hends))
  have hsecond := (hrepairs d none ";;".toList none).2 (by
    rintro (hcode | hsome | hends)
    · exact hcode rfl
    · rw [repair?, hrules, Repair.first?_singleton, Repair.alone?, hsilent] at hsome
      exact absurd hsome (by decide)
    · exact hopen hends)
  have hrepaired : Repair.alone? ⟨none, ";;".toList, none, some d⟩ drop.toRule
      = some ⟨"drop", 0, []⟩ := by cbv
  refine ⟨hends, hfirst.trans ?_, hsecond.trans hrepaired, hcodes, hplans _ _ hcodes⟩
  rw [repair?, hrules, Repair.first?_singleton, Repair.alone?, hpoint]

end Catalog

end SourceRepair
