import SourceRepair.Proofs.Pattern.Matches
import SourceRepair.Proofs.Text.Cutting
import SourceRepair.Rule.Basic

/-!
# What a rewrite keeps

A rewrite replaces some of a rule's matches in place. `rewrite_image` turns a fact about single
fixes into one about whole rewrites: a reading of texts that goes piece by piece (its value on two
texts in a row depends on its values on both) and that no fix of a match changes is not changed by
the rewrite, however many matches the text has and whichever of them have a fix.
-/

namespace SourceRepair

namespace Match

/-- The text up to a match stays, the match becomes its replacement, and the text behind it is
treated in the same way. -/
theorem replaceAll_cons {skipped : List Char} (m : Match) (replacement : List Char)
    (more : List (Match × List Char)) :
    replaceAll (skipped ++ (m.text ++ m.after)) ((m, replacement) :: more)
      = skipped ++ (replacement ++ replaceAll m.after more) := by
  rw [replaceAll]
  have hcount : (skipped ++ (m.text ++ m.after)).length - (m.text.length + m.after.length)
      = skipped.length := by
    simp only [List.length_append]
    omega
  rw [hcount, List.take_left, List.append_assoc]

/-- Replacements that look like what they replace, in a reading of texts piece by piece, make a text
that looks the same. -/
theorem replaceAll_image {α : Type} {read : List Char → α} {join : α → α → α}
    (hread : ∀ s t, read (s ++ t) = join (read s) (read t)) {p : Pattern}
    {before rest : List Char} {fixes : List (Match × List Char)}
    (horder : InOrder p before rest (fixes.map (·.1)))
    (hfixes : ∀ fix ∈ fixes, read fix.2 = read fix.1.text) :
    read (replaceAll rest fixes) = read rest := by
  induction fixes generalizing before rest with
  | nil => rfl
  | cons fix more ih =>
    obtain ⟨m, replacement⟩ := fix
    obtain ⟨skipped, rfl, -, -, hmore⟩ := horder
    have hfirst : read replacement = read m.text := hfixes (m, replacement) List.mem_cons_self
    rw [replaceAll_cons, hread, hread, hread skipped, hread m.text, hfirst,
      ih hmore fun fix hfix => hfixes fix (List.mem_cons_of_mem _ hfix)]

/-- A character of the new text is one of the old text or of a replacement. -/
theorem mem_of_mem_replaceAll {p : Pattern} {before rest : List Char}
    {fixes : List (Match × List Char)} (horder : InOrder p before rest (fixes.map (·.1)))
    {c : Char} (h : c ∈ replaceAll rest fixes) : c ∈ rest ∨ ∃ fix ∈ fixes, c ∈ fix.2 := by
  induction fixes generalizing before rest with
  | nil => exact Or.inl h
  | cons fix more ih =>
    obtain ⟨m, replacement⟩ := fix
    obtain ⟨skipped, rfl, -, -, hmore⟩ := horder
    rw [replaceAll_cons, List.mem_append, List.mem_append] at h
    rcases h with hskipped | hreplacement | hafter
    · exact Or.inl (List.mem_append_left _ hskipped)
    · exact Or.inr ⟨(m, replacement), List.mem_cons_self, hreplacement⟩
    · rcases ih hmore hafter with hafter | ⟨fix, hfix, hc⟩
      · exact Or.inl (List.mem_append_right _ (List.mem_append_right _ hafter))
      · exact Or.inr ⟨fix, List.mem_cons_of_mem _ hfix, hc⟩

end Match

namespace Rule

variable {rule : Rule} {text : List Char}

/-- A match of a rule in code is one of its pattern, has the whole text around it, and starts
outside every literal. -/
theorem of_mem_codeMatches {m : Match} (h : m ∈ rule.codeMatches text) :
    m.Of rule.pattern ∧ text = m.before.reverse ++ (m.text ++ m.after) ∧
      Span.covers (literalSpans text) m.start = false := by
  rw [codeMatches, List.mem_filter] at h
  obtain ⟨hmem, hcode⟩ := h
  obtain ⟨hof, hwhole⟩ := (rule.pattern.allMatches_inOrder text).of_mem hmem
  exact ⟨hof, hwhole, by simpa using hcode⟩

/-- A match of a rule that always reads something starts inside the text. -/
theorem start_lt_of_mem_codeMatches (hconsumes : rule.pattern.consumes = true) {m : Match}
    (h : m ∈ rule.codeMatches text) : m.start < Text.utf8Size text := by
  obtain ⟨hof, htext, -⟩ := of_mem_codeMatches h
  obtain ⟨c, more, hread⟩ := List.exists_cons_of_ne_nil (Pattern.Reads.ne_nil hof hconsumes)
  have hpos := Char.utf8Size_pos c
  have hsize : Text.utf8Size text
      = m.start + (Text.utf8Size m.text + Text.utf8Size m.after) := by
    rw [htext, Text.utf8Size_append, Text.utf8Size_reverse, Text.utf8Size_append]
    rfl
  rw [hread, Text.utf8Size_cons] at hsize
  omega

/-- The matches that the rule has a fix for, each with its replacement. -/
def suggested (rule : Rule) (ms : List Match) : List (Match × List Char) :=
  ms.filterMap fun m => (rule.suggest? m).map (m, ·)

/-- They are some of the matches. -/
theorem map_fst_suggested_sublist (rule : Rule) (ms : List Match) :
    ((rule.suggested ms).map (·.1)).Sublist ms := by
  induction ms with
  | nil => exact List.Sublist.slnil
  | cons m more ih =>
    rw [suggested, List.filterMap_cons]
    split
    · exact ih.cons m
    · rename_i fix hfix
      obtain ⟨replacement, -, rfl⟩ := Option.map_eq_some_iff.mp hfix
      exact ih.cons_cons m

/-- A rule that does not stop after its first fix applies all that it suggests. -/
theorem fixes_eq (rule : Rule) (text : List Char) : rule.fixes text
    = if rule.firstOnly then (rule.suggested (rule.codeMatches text)).take 1
      else rule.suggested (rule.codeMatches text) := rfl

/-- The matches that a rule applies are some of its matches in code. -/
theorem fixes_sublist (rule : Rule) (text : List Char) :
    ((rule.fixes text).map (·.1)).Sublist (rule.codeMatches text) := by
  have hall := rule.map_fst_suggested_sublist (rule.codeMatches text)
  rw [fixes_eq]
  split
  · -- a rule that stops after its first match takes that one from all of them
    exact ((List.take_sublist 1 _).map _).trans hall
  · exact hall

/-- The matches that a rule applies stand in the text one after another. -/
theorem fixes_inOrder (rule : Rule) (text : List Char) :
    Match.InOrder rule.pattern [] text ((rule.fixes text).map (·.1)) :=
  (rule.pattern.allMatches_inOrder text).sublist
    ((rule.fixes_sublist text).trans List.filter_sublist)

/-- A fix is what the rule's fixer makes of a match, and differs from it. -/
theorem mem_fixes {m : Match} {replacement : List Char}
    (h : (m, replacement) ∈ rule.fixes text) :
    m.Of rule.pattern ∧ rule.fixer.bind (· m) = some replacement ∧ replacement ≠ m.text := by
  have hof : m.Of rule.pattern :=
    ((rule.fixes_inOrder text).of_mem (List.mem_map.mpr ⟨_, h, rfl⟩)).1
  have hall : (m, replacement) ∈ rule.suggested (rule.codeMatches text) := by
    rw [fixes_eq] at h
    split at h
    · exact List.mem_of_mem_take h
    · exact h
  obtain ⟨m', -, hm'⟩ := List.mem_filterMap.mp hall
  obtain ⟨replacement', hsuggest, heq⟩ := Option.map_eq_some_iff.mp hm'
  obtain ⟨rfl, rfl⟩ := Prod.mk.inj heq
  rw [suggest?, Option.filter_eq_some_iff] at hsuggest
  exact ⟨hof, hsuggest.1, by simpa using hsuggest.2⟩

/-- A text changes if the rule has fixes for it, and then it is the text with these fixes in it. -/
theorem rewrite_eq_changed_iff {result : List Char} : rule.rewrite text = .changed result ↔
    rule.fixes text ≠ [] ∧ result = Match.replaceAll text (rule.fixes text) := by
  rw [rewrite]
  split
  · -- without matches there are no fixes
    rename_i hmatches
    have hfixes := rule.fixes_sublist text
    rw [List.isEmpty_iff.mp hmatches, List.sublist_nil, List.map_eq_nil_iff] at hfixes
    simp [hfixes]
  · split
    · -- nor are there without a fixer
      rename_i hfixer
      have hsuggest : ∀ m, rule.suggest? m = none := fun m => by
        rw [suggest?, Option.isNone_iff_eq_none.mp hfixer]
        rfl
      have hfixes : rule.fixes text = [] := by simp [fixes, hsuggest]
      simp [hfixes]
    · cases hfixes : rule.fixes text with
      | nil => simp
      | cons fix more => simp [eq_comm]

/-- A changed text is the text with the rule's fixes in it. -/
theorem rewrite_changed {result : List Char} (h : rule.rewrite text = .changed result) :
    rule.fixes text ≠ [] ∧ result = Match.replaceAll text (rule.fixes text) :=
  rewrite_eq_changed_iff.mp h

/-- A changed text has a match in code. -/
theorem exists_mem_codeMatches_of_changed {result : List Char}
    (h : rule.rewrite text = .changed result) : ∃ m, m ∈ rule.codeMatches text := by
  rw [rewrite] at h
  split at h
  · exact absurd h (by simp)
  · rename_i hmatches
    exact List.exists_mem_of_ne_nil _ (by simpa using hmatches)

/-- Characters of a kind that a rule's fixes only take from their matches are taken from the text by
a rewrite. -/
theorem mem_of_rewrite_changed {kind : Char → Prop}
    (hfix : ∀ m : Match, m.Of rule.pattern → ∀ replacement,
      rule.fixer.bind (· m) = some replacement → ∀ c ∈ replacement, kind c → c ∈ m.text)
    {result : List Char} (h : rule.rewrite text = .changed result) :
    ∀ c ∈ result, kind c → c ∈ text := by
  intro c hc hkind
  rw [(rewrite_changed h).2] at hc
  have horder := rule.fixes_inOrder text
  rcases Match.mem_of_mem_replaceAll horder hc with hold | ⟨⟨m, replacement⟩, hmem, hnew⟩
  · exact hold
  · obtain ⟨hof, hreplacement, -⟩ := mem_fixes hmem
    have hmatch : c ∈ m.text := hfix m hof replacement hreplacement c hnew hkind
    have hwhole := (horder.of_mem (List.mem_map.mpr ⟨_, hmem, rfl⟩)).2
    have htext : text = m.before.reverse ++ (m.text ++ m.after) := hwhole
    rw [htext]
    exact List.mem_append_right _ (List.mem_append_left _ hmatch)

/-- A reading of texts piece by piece that no fix of a match changes is not changed by a
rewrite. -/
theorem rewrite_image {α : Type} {read : List Char → α} {join : α → α → α}
    (hread : ∀ s t, read (s ++ t) = join (read s) (read t))
    (hfix : ∀ m : Match, m.Of rule.pattern → ∀ replacement,
      rule.fixer.bind (· m) = some replacement → read replacement = read m.text)
    {result : List Char} (h : rule.rewrite text = .changed result) : read result = read text := by
  rw [(rewrite_changed h).2]
  refine Match.replaceAll_image hread (rule.fixes_inOrder text) fun ⟨m, replacement⟩ hmem => ?_
  obtain ⟨hof, hreplacement, -⟩ := mem_fixes hmem
  exact hfix m hof replacement hreplacement

end Rule

end SourceRepair
