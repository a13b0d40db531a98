import SourceRepair.Proofs.Edit.Dispatch
import SourceRepair.Proofs.Rule.Settling
import SourceRepair.Proofs.Text.Trimming
import SourceRepair.Proofs.TypeScript.CommentLines
import SourceRepair.Proofs.TypeScript.LineEnds
import SourceRepair.Proofs.TypeScript.Runs

/-!
# Repaired lines stay repaired

Fifteen of the rules for single lines do not change what they have made of a line
(`evaluate_settled`), so a second run finds nothing to do for the same diagnostic. The reasons are
of five kinds. Most of the rules write at the end of the line a character that their pattern, which
goes on to the end as well, does not end with. A key has a colon behind it where a match would have
a blank. Runs of commas and semicolons collapse as a whole. Two rules put code in place of code and
seal it. And a promise that is marked with `void` is seen by the guard.
-/

namespace SourceRepair.TypeScript

open Pattern CharClass LiteralSpans

variable {m : Match} {replacement : List Char}

/-! ## Rules that change how the line ends -/

theorem getLast?_semicolonAfter {name : String} (h : semicolonAfter name m = some replacement) :
    replacement.getLast? = some ';' := by
  obtain rfl := Option.some.inj h
  exact List.getLast?_concat

theorem getLast?_closeMember {member : List Char} (h : closeMember member = some replacement) :
    replacement.getLast? = some ',' := by
  rw [eq_of_closeMember h]
  exact List.getLast?_concat

theorem getLast?_terminate (h : terminate m = some replacement) :
    replacement.getLast? = some ';' := by
  rw [eq_of_terminate h]
  exact List.getLast?_concat

theorem settlesLines_importTrailingComma : importTrailingComma.SettlesLines := by
  have hlast : importTrailingComma.pattern.LastReads (· ≠ ';') := by decide
  exact Rule.settlesLines_of_last_eq rfl rfl hlast fun _ _ h => getLast?_semicolonAfter h

theorem settlesLines_exportListTrailingComma : exportListTrailingComma.SettlesLines := by
  have hlast : exportListTrailingComma.pattern.LastReads (· ≠ ';') := by decide
  exact Rule.settlesLines_of_last_eq rfl rfl hlast fun _ _ h => getLast?_semicolonAfter h

theorem settlesLines_commaAsTerminator : commaAsTerminator.SettlesLines := by
  have hlast : commaAsTerminator.pattern.LastReads (· ≠ ';') := by decide
  refine Rule.settlesLines_of_last_eq rfl rfl hlast fun _ _ h => ?_
  obtain rfl := Option.some.inj h
  rfl

theorem settlesLines_missingPropertyComma : missingPropertyComma.SettlesLines := by
  have hlast : missingPropertyComma.pattern.LastReads (· ≠ ',') := by decide
  exact Rule.settlesLines_of_last_eq rfl rfl hlast fun _ _ h => getLast?_closeMember h

theorem settlesLines_missingMemberComma : missingMemberComma.SettlesLines := by
  have hlast : missingMemberComma.pattern.LastReads (· ≠ ',') := by decide
  refine Rule.settlesLines_of_last_eq rfl rfl hlast fun _ _ h => ?_
  obtain rfl := Option.some.inj h
  exact List.getLast?_concat

/-- An access that breaks off does not end in a character that it can be an access to. -/
theorem settlesLines_danglingMemberAccess : danglingMemberAccess.SettlesLines := by
  have hlast : danglingMemberAccess.pattern.LastReads
      fun c => (isWord c || "$)]".toList.contains c) = false := by
    have hmarks : isWord ' ' = false ∧ isWord '\t' = false ∧ isWord '?' = false ∧
        isWord '.' = false ∧ isWord '[' = false := by decide
    exact ⟨OnlyReads.lastReads (onlyReads_sequence.mpr (by simp [hmarks])), Or.inl rfl⟩
  refine Rule.settlesLines_of_last rfl rfl hlast fun m hm replacement h => ?_
  obtain ⟨target, _, _, -, hgroups, hlate, htarget, -⟩ := Reads.group_seq hm rfl (by decide)
  obtain ⟨c, rfl, hc⟩ := exists_of_reads_one htarget
  have hgroup : m.group "target" = [c] := Match.group_eq_of_groups hgroups hlate
  obtain rfl := Option.some.inj h
  exact ⟨c, by rw [hgroup]; rfl, ne_false_of_eq_true hc⟩

/-- A statement that ends in a semicolon is not ended once more. -/
theorem terminate_of_getLast? (h : (m.group "body").getLast? = some ';') : terminate m = none := by
  have hbody : Text.trimEnd (m.group "body") = m.group "body" :=
    Text.trimEnd_eq_self fun c hc => by
      obtain rfl := Option.some.inj (h.symm.trans hc)
      decide
  rw [terminate, hbody, h]
  rfl

/-- A rule that ends the statement on a line ends it once. -/
theorem settlesLines_of_terminate {rule : Rule} {body : Pattern}
    (hpattern : rule.pattern = Pattern.sequence [lineStart, group "body" body, lineEnd])
    (hbody : body.groupNames = [] ∧ body.consumes = true) (hfixer : rule.fixer = some terminate) :
    rule.SettlesLines := by
  have hconsumes : rule.pattern.consumes = true := by
    rw [hpattern]
    simp [Pattern.sequence, consumes, hbody.2]
  have hend : rule.pattern.endsAtLineEnd = true := by
    rw [hpattern]
    rfl
  intro line result again hline hresult hchanged hagain
  obtain ⟨m, replacement, -, hreplacement, hends⟩ :=
    Rule.exists_fix_at_end_of_changed_again hconsumes hend hline hresult hchanged hagain
  rw [hfixer] at hreplacement
  have hlast := getLast?_terminate hreplacement
  obtain ⟨other, second, hother, hsecond, hsame⟩ := hends (by
    rintro rfl
    exact absurd hlast (by simp))
  rw [hfixer] at hsecond
  -- the whole match is the statement, so it ends like the line
  have hread : other.group "body" = other.text := by
    rw [Match.Of, hpattern] at hother
    obtain ⟨word, _, _, htext, hgroups, hlate, -, hrest⟩ :=
      Reads.group_seq (Reads.of_assertion hother) hbody.1 List.not_mem_nil
    obtain ⟨_, _, rfl, ⟨rfl, -, -⟩, rfl, -⟩ := Reads.seq_of_groupNames hrest rfl
    rw [Match.group_eq_of_groups hgroups hlate, htext, List.append_nil, List.append_nil]
  rw [← hread, hlast] at hsame
  have hnone := terminate_of_getLast? hsame
  exact absurd (hnone.symm.trans hsecond) (by simp)

theorem settlesLines_missingTerminator : missingTerminator.SettlesLines :=
  settlesLines_of_terminate rfl ⟨rfl, rfl⟩ rfl

theorem settlesLines_missingAssignmentTerminator : missingAssignmentTerminator.SettlesLines :=
  settlesLines_of_terminate rfl ⟨rfl, rfl⟩ rfl

/-- An orphaned brace is all that stands on its line, and nothing is left of it. -/
theorem settlesLines_orphanedBrace : orphanedBrace.SettlesLines := by
  intro line result again hline hresult hchanged hagain
  obtain ⟨m, replacement, hof, htext, hreplacement, rfl⟩ :=
    Rule.exists_fix_at_end rfl rfl hline hchanged
  obtain ⟨other, -, hother, hwhole, -, -⟩ := Rule.exists_fix_at_end rfl rfl hresult hagain
  have hbefore : m.before = [] := hline.before_eq_nil hof htext
  obtain rfl := Option.some.inj hreplacement
  rw [hbefore] at hwhole
  simp only [List.reverse_nil, List.append_nil, List.nil_eq, List.append_eq_nil_iff] at hwhole
  exact Reads.ne_nil hother rfl hwhole.2

/-! ## A colon behind a key -/

/-- A key: a bare name, or a text between quotes. -/
inductive IsKey : List Char → Prop
  | bare (c : Char) (more : List Char) (hfirst : isAsciiLetter c = true ∨ c = '_' ∨ c = '$')
      (hmore : ∀ d ∈ more, isWord d = true ∨ d = '$') : IsKey (c :: more)
  | quoted (quote : Char) (body : List Char) (hquote : quote = '\'' ∨ quote = '"')
      (hbody : ∀ c ∈ body, c ≠ quote) : IsKey (quote :: (body ++ [quote]))

variable {key key' back back' : List Char} {c : Char}

/-- A key does not begin with a blank. -/
theorem IsKey.head (h : IsKey key) : ∃ c more, key = c :: more ∧ ¬(c = ' ' ∨ c = '\t') := by
  cases h with
  | bare c more hfirst =>
    refine ⟨c, more, rfl, ?_⟩
    rintro (rfl | rfl) <;> revert hfirst <;> decide
  | quoted quote body hquote =>
    refine ⟨quote, body ++ [quote], rfl, ?_⟩
    rcases hquote with rfl | rfl <;> decide

/-- A key with a colon behind it is not another key with a blank behind it: a key goes on as far as
it can. -/
theorem IsKey.append_ne (h : IsKey key) (h' : IsKey key') (hc : c = ' ' ∨ c = '\t') :
    key ++ ':' :: back ≠ key' ++ c :: back' := by
  intro heq
  have hcolon : ':' ≠ c := by rcases hc with rfl | rfl <;> decide
  have hquotes : ∀ quote : Char, quote = '\'' ∨ quote = '"' →
      ¬(isAsciiLetter quote = true ∨ quote = '_' ∨ quote = '$') := by
    rintro _ (rfl | rfl) <;> decide
  cases h with
  | bare d more hfirst hmore =>
    cases h' with
    | bare d' more' hfirst' hmore' =>
      have hrest : more ++ ':' :: back = more' ++ c :: back' := (List.cons.inj heq).2
      have hblank : ¬(isWord c = true ∨ c = '$') := by rcases hc with rfl | rfl <;> decide
      exact hcolon (Text.eq_of_run_append_eq hrest hmore hmore' (by decide) hblank).2.1
    | quoted quote body hquote =>
      obtain rfl : d = quote := (List.cons.inj heq).1
      exact hquotes d hquote hfirst
  | quoted quote body hquote hbody =>
    cases h' with
    | bare d' more' hfirst' =>
      obtain rfl : quote = d' := (List.cons.inj heq).1
      exact hquotes quote hquote hfirst'
    | quoted quote' body' hquote' hbody' =>
      obtain rfl : quote = quote' := (List.cons.inj heq).1
      have hrest : body ++ quote :: ':' :: back = body' ++ quote :: c :: back' := by
        simpa using (List.cons.inj heq).2
      have hclosed := Text.eq_of_run_append_eq hrest hbody hbody' (not_not.mpr rfl)
        (not_not.mpr rfl)
      exact hcolon (List.cons.inj hclosed.2.2).1

/-- A match is indentation, a key, blanks and a value, and the fix has a colon in place of the
blanks. -/
theorem missingPropertyColon_shape (hm : m.Of missingPropertyColon.pattern) :
    ∃ indent key c gap value, m.text = indent ++ (key ++ c :: (gap ++ value)) ∧
      IsBlank indent ∧ IsKey key ∧ (c = ' ' ∨ c = '\t') ∧ IsBlank gap ∧
      ∀ replacement, insertColon m = some replacement →
        replacement = indent ++ (key ++ ':' :: ' ' :: value) := by
  obtain ⟨indent, _, late₁, htext, hgroups, hlate₁, hindent, hm⟩ :=
    Reads.group_seq (Reads.of_assertion hm) rfl (by decide)
  obtain ⟨key, _, late₂, rfl, rfl, hlate₂, hkey, hm⟩ := Reads.group_seq hm rfl (by decide)
  obtain ⟨between, _, rfl, hbetween, hm⟩ := Reads.seq_of_groupNames hm rfl
  obtain ⟨value, _, late₃, rfl, rfl, hlate₃, hvalue, rfl, rfl⟩ := Reads.group_seq hm rfl (by decide)
  obtain ⟨first, gap, rfl, hfirst, hgap⟩ := Reads.seq_of_groupNames hbetween rfl
  obtain ⟨c, rfl, hc⟩ := exists_of_reads_one hfirst
  have hkeyed : IsKey key := by
    rcases hkey with hbare | hquoted
    · obtain ⟨first, more, rfl, hone, hmany⟩ := Reads.seq_of_groupNames hbare rfl
      obtain ⟨rest, _, rfl, hrest, rfl, -⟩ := Reads.seq_of_groupNames hmany rfl
      obtain ⟨d, rfl, hd⟩ := exists_of_reads_one hone
      rw [List.append_nil]
      exact .bare d rest (by simpa [or_assoc] using hd)
        (hrest.forall_mem (by simp [OnlyReads, nameChar]))
    · obtain ⟨quote, body, hquote, rfl, hbody⟩ := exists_of_reads_quotedKey hquoted
      exact .quoted quote body hquote fun c hc => (hbody c hc).1
  refine ⟨indent, key, c, gap, value, by simpa using htext, isBlank_of_reads hindent, hkeyed,
    by simpa using hc, isBlank_of_reads hgap, fun replacement h => ?_⟩
  have hindentGroup : m.group "indent" = indent := by rw [Match.group, Match.group?, hgroups]; rfl
  have hkeyGroup : m.group "key" = key := by rw [Match.group, Match.group?, hgroups]; rfl
  have hvalueGroup : m.group "value" = value := by rw [Match.group, Match.group?, hgroups]; rfl
  rw [eq_of_insertColon h, hindentGroup, hkeyGroup, hvalueGroup]
  simp

/-- A colon stands behind the key where a match would have a blank. -/
theorem settlesLines_missingPropertyColon : missingPropertyColon.SettlesLines := by
  intro line result again hline hresult hchanged hagain
  obtain ⟨m, replacement, hof, -, hreplacement, rfl⟩ :=
    Rule.exists_fix_at_start rfl rfl hline hchanged
  obtain ⟨other, -, hother, hwhole, -, -⟩ := Rule.exists_fix_at_start rfl rfl hresult hagain
  obtain ⟨indent, key, -, -, value, -, hindent, hkey, -, -, hfix⟩ :=
    missingPropertyColon_shape hof
  obtain ⟨indent', key', c, gap, value', htext, hindent', hkey', hc, -, -⟩ :=
    missingPropertyColon_shape hother
  obtain ⟨first, more, rfl, hfirst⟩ := hkey.head
  obtain ⟨first', more', rfl, hfirst'⟩ := hkey'.head
  rw [hfix replacement hreplacement, htext] at hwhole
  simp only [List.append_assoc, List.cons_append] at hwhole
  obtain ⟨-, rfl, hrest⟩ :=
    Text.eq_of_run_append_eq hwhole hindent hindent' hfirst hfirst'
  refine hkey.append_ne hkey' hc (congrArg (first :: ·) hrest)

/-! ## Code in place of code -/

/-- A rule that seals its replacements stays in code if what it reads is code, and if a replacement
begins like its match and brings in no marks. -/
theorem seals_of_reads {rule : Rule} {mark own : Char} (hstays : rule.pattern.StaysInLine)
    (hunmarked : rule.pattern.ReadsUnmarked) (hall : rule.firstOnly = false)
    (hwords : rule.pattern.ReadsCodeWords)
    (hreads : ∀ m : Match, m.Of rule.pattern → ∃ front c, m.text = front ++ [mark] ∧
      mark ∉ front ∧ front.getLast? = some c ∧ c ≠ own)
    (hwrites : ∀ m : Match, m.Of rule.pattern → ∃ front,
      rule.fixer.bind (· m) = some (front ++ [mark]) ∧
      (front ++ [mark]).head? = m.text.head? ∧ mark ∉ front ∧ front.getLast? = some own ∧
      ∀ c ∈ front, c ∉ marks) : rule.Seals mark own := by
  refine ⟨⟨hstays, hunmarked, hall, fun m hm => hwords.codeWord hm, fun m hm => ?_⟩, hreads,
    fun m hm replacement h => ?_⟩
  · obtain ⟨front, hfix, hhead, -, hlast, hmarks⟩ := hwrites m hm
    obtain ⟨front', c, htext, -, hlast', hne⟩ := hreads m hm
    have hword := hwords.codeWord hm
    have hmark : mark ∉ marks := hword.forall_mem mark (by rw [htext]; simp)
    have hchanges : front ++ [mark] ≠ m.text := by
      rw [htext]
      intro heq
      rw [List.append_cancel_right heq, hlast'] at hlast
      exact hne (Option.some.inj hlast)
    refine ⟨front ++ [mark], ?_, by simp, fun c hc => hword.head c (hhead ▸ hc), ?_⟩
    · rw [Rule.suggest?, hfix]
      exact Option.filter_some_pos (decide_eq_true hchanges)
    · exact List.forall_mem_append.mpr ⟨hmarks, List.forall_mem_singleton.mpr hmark⟩
  · obtain ⟨front, hfix, hhead, hmark, hlast, -⟩ := hwrites m hm
    obtain rfl := Option.some.inj (hfix.symm.trans h)
    exact ⟨hhead, front, rfl, hmark, hlast⟩

/-- A name holds only word characters and dollar signs. -/
theorem not_mem_of_name {name : List Char} (h : ∀ c ∈ name, isWord c = true ∨ c = '$') {d : Char}
    (hword : isWord d = false) (hne : d ≠ '$') : d ∉ name := by
  intro hd
  rcases h d hd with hword' | hdollar
  · exact absurd hword' (by simp [hword])
  · exact hne hdollar

/-- Between the equals sign and the semicolon stands a zero now. -/
theorem seals_emptyForInitializer : emptyForInitializer.Seals ';' '0' := by
  have hwords : emptyForInitializer.pattern.ReadsCodeWords := by decide
  refine seals_of_reads (by decide) (by decide) rfl hwords (fun m hm => ?_)
    fun m hm => ?_
  · obtain ⟨gap₁, gap₂, keyword, gap₃, name, gap₄, gap₅, htext, hgap₁, hgap₂, hgap₃, hgap₄, hgap₅,
      hkeyword, hname, -⟩ := emptyForInitializer_shape hm rfl
    have hblank : ∀ gap, IsBlank gap → ';' ∉ gap := fun gap h hc => absurd (h _ hc) (by decide)
    have hkeyword : ';' ∉ keyword := by rcases hkeyword with rfl | rfl <;> decide
    have hname : ';' ∉ name := not_mem_of_name hname (by decide) (by decide)
    obtain ⟨c, hlast⟩ : ∃ c, ('=' :: gap₅).getLast? = some c :=
      ⟨_, List.getLast?_eq_some_getLast (List.cons_ne_nil _ _)⟩
    refine ⟨_, c, htext, ?_, ?_, ?_⟩
    · simp [hblank, hgap₁, hgap₂, hgap₃, hgap₄, hgap₅, hkeyword, hname]
    · rw [List.append_assoc _ ['='], List.getLast?_append_of_ne_nil _ (by simp)]
      exact hlast
    · rintro rfl
      rcases List.mem_cons.mp (List.mem_of_getLast? hlast) with hzero | hzero
      · exact absurd hzero (by decide)
      · exact absurd (hgap₅ _ hzero) (by decide)
  · obtain ⟨gap₁, gap₂, keyword, gap₃, name, gap₄, gap₅, htext, -, -, -, -, -, hkeyword, hname,
      hfix⟩ := emptyForInitializer_shape hm rfl
    refine ⟨"for (".toList ++ keyword ++ [' '] ++ name ++ " = 0".toList, ?_, ?_, ?_, ?_, ?_⟩
    · exact congrArg some (hfix.trans (by simp))
    · rw [htext]
      simp
    · have hkeyword : ';' ∉ keyword := by rcases hkeyword with rfl | rfl <;> decide
      have hname : ';' ∉ name := not_mem_of_name hname (by decide) (by decide)
      simp [hkeyword, hname]
    · exact List.getLast?_append_of_ne_nil _ (by simp)
    · have hread := (hwords.codeWord hm).forall_mem
      have hkeyword : ∀ c ∈ keyword, c ∉ marks := fun c hc => hread c (by simp [htext, hc])
      have hname : ∀ c ∈ name, c ∉ marks := fun c hc => hread c (by simp [htext, hc])
      simp only [List.forall_mem_append]
      exact ⟨⟨⟨⟨by simp [marks], hkeyword⟩, by simp [marks]⟩, hname⟩, by simp [marks]⟩

/-- The matched call of a timer has the name of a function for its first argument. -/
theorem timerAsyncCallback_shape (hm : m.Of timerAsyncCallback.pattern) :
    ∃ timer callback, m.text = timer ++ ('(' :: callback ++ [',']) ∧
      m.group "timer" = timer ∧ m.group "callback" = callback ∧
      (timer = "setInterval".toList ∨ timer = "setTimeout".toList) ∧ callback ≠ [] ∧
      ∀ c ∈ callback, isWord c = true ∨ c = '$' ∨ c = '.' := by
  obtain ⟨timer, _, late₁, htext, hgroups, -, htimer, hm⟩ :=
    Reads.group_seq (Reads.of_assertion hm) rfl (by decide)
  obtain ⟨opening, _, rfl, hopening, hm⟩ := Reads.seq_of_groupNames hm rfl
  obtain ⟨callback, _, late₂, rfl, rfl, -, hcallback, hm⟩ := Reads.group_seq hm rfl (by decide)
  obtain ⟨comma, _, rfl, hcomma, rfl, rfl⟩ := Reads.seq_of_groupNames hm rfl
  obtain ⟨rfl, -⟩ := reads_lit.mp hopening
  obtain ⟨rfl, -⟩ := reads_lit.mp hcomma
  refine ⟨timer, callback, ?_, ?_, ?_, ?_, hcallback.ne_nil rfl, ?_⟩
  · simpa using htext
  · rw [Match.group, Match.group?, hgroups]
    rfl
  · rw [Match.group, Match.group?, hgroups]
    rfl
  · exact htimer.imp (fun h => (reads_lit.mp h).1) fun h => (reads_lit.mp h).1
  · exact hcallback.forall_mem (by simp [OnlyReads, or_assoc])

/-- What stood in front of the comma is now inside a function that ends in a parenthesis. -/
theorem seals_timerAsyncCallback : timerAsyncCallback.Seals ',' ')' := by
  have htimers : ∀ timer : List Char, timer = "setInterval".toList ∨ timer = "setTimeout".toList →
      ',' ∉ timer ∧ timer.head? = some 's' := by
    rintro _ (rfl | rfl) <;> decide
  have hwords : timerAsyncCallback.pattern.ReadsCodeWords := by decide
  refine seals_of_reads (by decide) (by decide) rfl hwords (fun m hm => ?_)
    fun m hm => ?_
  · obtain ⟨timer, callback, htext, -, -, htimer, hne, hcallback⟩ := timerAsyncCallback_shape hm
    have hlast : ∃ c, callback.getLast? = some c := ⟨_, List.getLast?_eq_some_getLast hne⟩
    obtain ⟨c, hlast⟩ := hlast
    refine ⟨timer ++ '(' :: callback, c, by simpa using htext, ?_, ?_, ?_⟩
    · have hcallback : ',' ∉ callback := fun hc => absurd (hcallback _ hc) (by decide)
      simp [(htimers timer htimer).1, hcallback]
    · show (timer ++ (['('] ++ callback)).getLast? = some c
      rw [← List.append_assoc, List.getLast?_append_of_ne_nil _ hne, hlast]
    · rintro rfl
      exact absurd (hcallback _ (List.mem_of_getLast? hlast)) (by decide)
  · obtain ⟨timer, callback, htext, htimerGroup, hcallbackGroup, htimer, hne, hcallback⟩ :=
      timerAsyncCallback_shape hm
    refine ⟨timer ++ "(() => void ".toList ++ callback ++ "()".toList, ?_, ?_, ?_, ?_, ?_⟩
    · rw [← htimerGroup, ← hcallbackGroup]
      exact congrArg some (by simp)
    · have hhead : timer.head? = some 's' := (htimers timer htimer).2
      rw [htext]
      simp [List.head?_append, hhead]
    · have hcallback : ',' ∉ callback := fun hc => absurd (hcallback _ hc) (by decide)
      simp [(htimers timer htimer).1, hcallback]
    · exact List.getLast?_append_of_ne_nil _ (by simp)
    · have hread := (hwords.codeWord hm).forall_mem
      have htimer : ∀ c ∈ timer, c ∉ marks := fun c hc => hread c (by simp [htext, hc])
      have hcallback : ∀ c ∈ callback, c ∉ marks := fun c hc => hread c (by simp [htext, hc])
      simp only [List.forall_mem_append]
      exact ⟨⟨⟨htimer, by simp [marks]⟩, hcallback⟩, by simp [marks]⟩

/-! ## A guard that sees the repair -/

/-- A line with a promise that is marked with `void` has the word in it. -/
theorem occurs_of_rewrite_voidFloatingPromise {line result : List Char}
    (h : voidFloatingPromise.rewrite line = .changed result) :
    Text.occurs "void ".toList result = true := by
  obtain ⟨m, replacement, more, -, -, hreplacement, -, rfl⟩ := Rule.exists_first_fix h
  obtain rfl := Option.some.inj hreplacement
  have hplace := Text.occurs_append (m.before.reverse ++ m.group "indent") "void ".toList
    (m.group "stmt" ++ Match.replaceAll m.after more)
  simpa using hplace

/-! ## All of them -/

/-- The rules for single lines that settle what they repair. -/
def settlingRules : List Rule :=
  [duplicateComma, duplicateSemicolon, missingTerminator, missingAssignmentTerminator,
    importTrailingComma, exportListTrailingComma, commaAsTerminator, missingPropertyColon,
    missingPropertyComma, missingMemberComma, danglingMemberAccess, orphanedBrace,
    emptyForInitializer, voidFloatingPromise, timerAsyncCallback]

theorem mem_rules_of_mem_settlingRules {rule : Rule} (h : rule ∈ settlingRules) :
    rule ∈ catalog.rules := by
  rw [rules_eq]
  simp only [settlingRules, List.mem_cons, List.not_mem_nil, or_false] at h ⊢
  tauto

theorem settlesLines_of_mem_settlingRules {rule : Rule} (h : rule ∈ settlingRules)
    (hvoid : rule ≠ voidFloatingPromise) : rule.SettlesLines := by
  simp only [settlingRules, List.mem_cons, List.not_mem_nil, or_false] at h
  rcases h with rfl | rfl | rfl | rfl | rfl | rfl | rfl | rfl | rfl | rfl | rfl | rfl | rfl | rfl |
    rfl
  · exact fun _ _ again _ _ h => collapses_duplicateComma.rewrite_ne_changed h again
  · exact fun _ _ again _ _ h => collapses_duplicateSemicolon.rewrite_ne_changed h again
  · exact settlesLines_missingTerminator
  · exact settlesLines_missingAssignmentTerminator
  · exact settlesLines_importTrailingComma
  · exact settlesLines_exportListTrailingComma
  · exact settlesLines_commaAsTerminator
  · exact settlesLines_missingPropertyColon
  · exact settlesLines_missingPropertyComma
  · exact settlesLines_missingMemberComma
  · exact settlesLines_danglingMemberAccess
  · exact settlesLines_orphanedBrace
  · exact fun _ _ again _ _ h => seals_emptyForInitializer.rewrite_ne_changed h again
  · exact absurd rfl hvoid
  · exact fun _ _ again _ _ h => seals_timerAsyncCallback.rewrite_ne_changed h again

/-- A line that such a rule has repaired it does not change again, with the same lines around it and
for the same diagnostic. -/
theorem evaluate_settled {rule : Rule} (hrule : rule ∈ settlingRules) {context : LineContext}
    (hline : ∀ c ∈ context.current, c ≠ '\n' ∧ c ≠ '\r') {result : List Char}
    (h : rule.evaluate context = .changed result) (again : List Char) :
    rule.evaluate { context with current := result } ≠ .changed again := by
  have hwindow : ∀ rule ∈ settlingRules, rule.window = .line := by decide
  intro hagain
  obtain ⟨line, -, htext, hchanged⟩ := Rule.evaluate_changed h
  obtain ⟨repaired, hadmits, htext', hchanged'⟩ := Rule.evaluate_changed hagain
  rw [hwindow rule hrule] at htext htext'
  obtain rfl := Option.some.inj htext
  obtain rfl := Option.some.inj htext'
  by_cases hvoid : rule = voidFloatingPromise
  · subst hvoid
    -- the guard looks at the line as it is now
    have hguard : lacksVoid { context with current := result } = true := hadmits
    rw [lacksVoid, occurs_of_rewrite_voidFloatingPromise hchanged] at hguard
    exact absurd hguard (by simp)
  · have hcatalog := mem_rules_of_mem_settlingRules hrule
    have hresult : IsLine result := by
      intro c hc
      by_contra hend
      have hmem : c ∈ context.current := Rule.mem_of_rewrite_changed
        (fun m hm replacement hfix => ownLineEnds_of_mem_rules hcatalog hm hfix) hchanged c hc
        (by tauto)
      exact hend (hline c hmem)
    exact settlesLines_of_mem_settlingRules hrule hvoid _ _ again hline hresult hchanged hchanged'

/-- Two timers on one line get a function each, and keep it. -/
theorem evaluate_settled_timers :
    let context : LineContext :=
      ⟨none, "setTimeout(load, 10); setTimeout(save, 20);".toList, none, none⟩
    let result := "setTimeout(() => void load(), 10); setTimeout(() => void save(), 20);".toList
    timerAsyncCallback ∈ settlingRules ∧ (∀ c ∈ context.current, c ≠ '\n' ∧ c ≠ '\r') ∧
      timerAsyncCallback.evaluate context = .changed result ∧
      ∀ again, timerAsyncCallback.evaluate { context with current := result } ≠ .changed again := by
  have hrule : timerAsyncCallback ∈ settlingRules := by simp [settlingRules]
  have hline : ∀ c ∈ "setTimeout(load, 10); setTimeout(save, 20);".toList,
      c ≠ '\n' ∧ c ≠ '\r' := by simp
  have hchanged : timerAsyncCallback.evaluate
      ⟨none, "setTimeout(load, 10); setTimeout(save, 20);".toList, none, none⟩ = .changed
        "setTimeout(() => void load(), 10); setTimeout(() => void save(), 20);".toList := by
    show timerAsyncCallback.rewrite _ = _
    rw [Rule.rewrite, Rule.fixes, Rule.codeMatches_eq_computedMatches]
    decide +kernel
  exact ⟨hrule, hline, hchanged, evaluate_settled hrule hline hchanged⟩

end SourceRepair.TypeScript
