import SourceRepair.Proofs.Rule.Rewriting

/-!
# Characters that a rule adds or takes away

A rewrite compares each match with its own replacement, and puts many replacements into a text at
once. That the text as a whole has changed is seen by counting: where every fix takes some of the
characters of one kind away (`Rule.Loses`), or every fix adds some (`Rule.Gains`), no fix can undo
what the others have done, whatever their lengths are (`Rule.Loses.ne`, `Rule.Gains.ne`).
-/

namespace SourceRepair

/-- The characters of a kind in a rewritten text: those of the text, without those of the matches
that were replaced, and with those of the replacements. -/
theorem Match.countP_replaceAll (kind : Char → Bool) {p : Pattern} {before rest : List Char}
    {fixes : List (Match × List Char)} (horder : InOrder p before rest (fixes.map (·.1))) :
    (replaceAll rest fixes).countP kind + (fixes.map fun fix => fix.1.text.countP kind).sum
      = rest.countP kind + (fixes.map fun fix => fix.2.countP kind).sum := by
  induction fixes generalizing before rest with
  | nil => rfl
  | cons fix more ih =>
    obtain ⟨m, replacement⟩ := fix
    obtain ⟨skipped, rfl, -, -, hmore⟩ := horder
    have hcount : (replaceAll m.after more).countP kind + _ = m.after.countP kind + _ := ih hmore
    rw [replaceAll_cons]
    simp only [List.countP_append, List.map_cons, List.sum_cons]
    omega

namespace Rule

/-- Every fix of the rule has fewer characters of a kind than its match. -/
def Loses (rule : Rule) (kind : Char → Bool) : Prop :=
  ∀ m : Match, m.Of rule.pattern → ∀ replacement, rule.fixer.bind (· m) = some replacement →
    replacement.countP kind < m.text.countP kind

/-- Every fix of the rule has more characters of a kind than its match. -/
def Gains (rule : Rule) (kind : Char → Bool) : Prop :=
  ∀ m : Match, m.Of rule.pattern → ∀ replacement, rule.fixer.bind (· m) = some replacement →
    m.text.countP kind < replacement.countP kind

variable {rule : Rule} {kind : Char → Bool} {text result : List Char}

/-- A changed text has lost characters of the kind. -/
theorem Loses.countP_lt (h : rule.Loses kind) (hchanged : rule.rewrite text = .changed result) :
    result.countP kind < text.countP kind := by
  obtain ⟨hne, rfl⟩ := rewrite_changed hchanged
  have hcount := Match.countP_replaceAll kind (rule.fixes_inOrder text)
  have hfixes : ((rule.fixes text).map fun fix => fix.2.countP kind).sum
      < ((rule.fixes text).map fun fix => fix.1.text.countP kind).sum :=
    List.sum_lt_sum_of_ne_nil hne _ _ fun fix hfix =>
      h fix.1 (mem_fixes hfix).1 fix.2 (mem_fixes hfix).2.1
  omega

/-- A changed text has gained characters of the kind. -/
theorem Gains.countP_lt (h : rule.Gains kind) (hchanged : rule.rewrite text = .changed result) :
    text.countP kind < result.countP kind := by
  obtain ⟨hne, rfl⟩ := rewrite_changed hchanged
  have hcount := Match.countP_replaceAll kind (rule.fixes_inOrder text)
  have hfixes : ((rule.fixes text).map fun fix => fix.1.text.countP kind).sum
      < ((rule.fixes text).map fun fix => fix.2.countP kind).sum :=
    List.sum_lt_sum_of_ne_nil hne _ _ fun fix hfix =>
      h fix.1 (mem_fixes hfix).1 fix.2 (mem_fixes hfix).2.1
  omega

theorem Loses.ne (h : rule.Loses kind) (hchanged : rule.rewrite text = .changed result) :
    result ≠ text := by
  rintro rfl
  exact Nat.lt_irrefl _ (h.countP_lt hchanged)

theorem Gains.ne (h : rule.Gains kind) (hchanged : rule.rewrite text = .changed result) :
    result ≠ text := by
  rintro rfl
  exact Nat.lt_irrefl _ (h.countP_lt hchanged)

/-- A rule that drops its matches loses characters of every kind that they all have. -/
theorem loses_of_drop (hread : rule.pattern.consumes = true)
    (hdrop : ∀ m replacement, rule.fixer.bind (· m) = some replacement → replacement = []) :
    rule.Loses fun _ => true := by
  intro m hm replacement h
  rw [hdrop m replacement h, List.countP_nil, List.countP_true]
  exact List.length_pos_of_ne_nil (Pattern.Reads.ne_nil hm hread)

/-- A rule that keeps a group at the start of its matches and writes a mark behind it gains the mark
if nothing else of a match holds any. -/
theorem gains_of_group {name : String} {body rest : Pattern} {mark : Char}
    (hpattern : ∀ m : Match, m.Of rule.pattern → m.Of (.seq (.group name body) rest))
    (hbody : body.groupNames = []) (hrest : name ∉ rest.groupNames)
    (hmarks : rest.OnlyReads (· ≠ mark))
    (hfix : ∀ m replacement, rule.fixer.bind (· m) = some replacement →
      (m.group name).count mark < replacement.count mark) : rule.Gains (· == mark) := by
  intro m hm replacement h
  obtain ⟨back, _, htext, hback⟩ := (hpattern m hm).exists_eq_group_append hbody hrest
  have hnone : back.count mark = 0 :=
    List.count_eq_zero.mpr fun hmem => hback.forall_mem hmarks mark hmem rfl
  have hcount := hfix m replacement h
  show m.text.count mark < replacement.count mark
  rw [htext, List.count_append]
  omega

end Rule

end SourceRepair
