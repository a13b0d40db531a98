import SourceRepair.Proofs.Scan.Splicing

/-!
# Scans that compute

`Pattern.matchesFrom` goes on behind each match by recursion on what is left of the text, which
does not reduce on closed texts. `Pattern.matchesWithin` is the same search by recursion on a bound
for its steps, and a bound of two steps a character is enough (`matchesFrom_eq_matchesWithin`). With
it the findings of a closed text can be computed, apart from their order.
-/

namespace SourceRepair

namespace Pattern

/-- The first matches from a place on, as many as can be found in some number of steps. -/
def matchesWithin (p : Pattern) : Nat → Bool → List Char → List Char → List Match
  | 0, _, _, _ => []
  | steps + 1, barred, before, rest =>
    match p.findFrom before rest with
    | none => []
    | some m =>
      if barred = true ∧ m.text = [] ∧ m.after.length = rest.length then
        match rest with
        | [] => []
        | x :: rest => matchesWithin p steps false (x :: before) rest
      else m :: matchesWithin p steps true m.endCursor.before m.after

/-- A search ends within two steps for each character: behind a match, an empty one is tried and
thrown away before the search goes on one character further. -/
theorem matchesFrom_eq_matchesWithin (p : Pattern) (steps : Nat) (barred : Bool)
    (before rest : List Char) (h : 2 * rest.length + (if barred then 0 else 1) < steps) :
    p.matchesFrom barred before rest = p.matchesWithin steps barred before rest := by
  fun_induction matchesFrom p barred before rest generalizing steps with
  | case1 barred before rest hnone =>
    obtain ⟨steps, rfl⟩ := Nat.exists_eq_succ_of_ne_zero (Nat.ne_zero_of_lt h)
    simp only [matchesWithin, hnone]
  | case2 barred before m hfind hempty =>
    obtain ⟨steps, rfl⟩ := Nat.exists_eq_succ_of_ne_zero (Nat.ne_zero_of_lt h)
    simp only [matchesWithin, hfind, if_pos hempty]
  | case3 barred before m x rest hfind hempty ih =>
    obtain ⟨steps, rfl⟩ := Nat.exists_eq_succ_of_ne_zero (Nat.ne_zero_of_lt h)
    simp only [matchesWithin, hfind, if_pos hempty]
    refine ih steps ?_
    simp only [List.length_cons] at h
    simp only [Bool.false_eq_true, if_false]
    omega
  | case4 barred before rest m hfind hread ih =>
    obtain ⟨steps, rfl⟩ := Nat.exists_eq_succ_of_ne_zero (Nat.ne_zero_of_lt h)
    simp only [matchesWithin, hfind, if_neg hread]
    congr 1
    refine ih steps ?_
    -- a match that is not thrown away reads something, or is the first at its place
    have hle := findFrom_length_le hfind
    have hmoves : 2 * m.after.length < 2 * rest.length + (if barred then 0 else 1) := by
      by_cases hlt : m.after.length < rest.length
      · omega
      · have heq : m.after.length = rest.length := by omega
        have htext : m.text = [] := List.eq_nil_of_length_eq_zero (by omega)
        have hbarred : barred ≠ true := fun hb => hread ⟨hb, htext, heq⟩
        rw [if_neg hbarred]
        omega
    simp only [if_true]
    omega

theorem allMatches_eq_matchesWithin (p : Pattern) (text : List Char) :
    p.allMatches text = p.matchesWithin (2 * text.length + 2) false [] text :=
  matchesFrom_eq_matchesWithin _ _ _ _ _ (by simp)

end Pattern

namespace Rule

/-- The matches of a rule in code, by a search that computes. -/
def computedMatches (rule : Rule) (text : List Char) : List Match :=
  (rule.pattern.matchesWithin (2 * text.length + 2) false [] text).filter fun m =>
    !Span.covers (literalSpans text) m.start

theorem codeMatches_eq_computedMatches (rule : Rule) (text : List Char) :
    rule.codeMatches text = rule.computedMatches text := by
  rw [codeMatches, computedMatches, Pattern.allMatches_eq_matchesWithin]

end Rule

/-- The findings of some rules in a text, those of each rule together. -/
def computedFindings (rules : List Rule) (text : List Char) : List Finding :=
  rules.flatMap fun rule => (rule.computedMatches text).map (Finding.ofMatch rule)

/-- A scan lists the findings in order. -/
theorem scan_eq_mergeSort (rules : List Rule) (text : List Char) :
    scan rules text = (computedFindings rules text).mergeSort Finding.positionLE := by
  simp only [scan, computedFindings, Rule.codeMatches_eq_computedMatches]

/-- A single finding is in order. -/
theorem scan_eq_singleton {rules : List Rule} {text : List Char} {finding : Finding}
    (h : computedFindings rules text = [finding]) : scan rules text = [finding] := by
  rw [scan_eq_mergeSort, h, List.mergeSort_singleton]

theorem mem_scan_of_eq_singleton {rules : List Rule} {text : List Char} {finding : Finding}
    (h : computedFindings rules text = [finding]) : finding ∈ scan rules text := by
  rw [scan_eq_singleton h]
  exact List.mem_singleton_self finding

/-- A single finding has at most one fix. -/
theorem applyFixes_singleton {text : List Char} {finding : Finding} {edit : TextEdit}
    (h : finding.fix = some edit) :
    applyFixes text [finding] = TextEdit.applyFrom 0 text [edit] := by
  rw [applyFixes, List.filterMap_cons_some h, List.filterMap_nil, List.mergeSort_singleton]

end SourceRepair
