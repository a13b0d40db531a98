import Mathlib
import SourceRepair.Proofs.Scan.Splicing

/-!
# Fixes that overlap

Fixes are applied greedily. Among the edits in order of their ranges, those are taken that start at
or behind the end of the last one taken (`TextEdit.taken`), and the others are passed over
(`TextEdit.passedOver`). `applyFixes_greedy` says that the copying loop does this: its text is the
one that replaces the ranges taken one at a time from right to left, each at its original offsets,
and every edit passed over runs into a taken one that does not start later. Edits that do not
overlap are all taken, and if their ranges differ it does not matter in which order they were found.

Replacing from right to left is what makes the offsets of the text the right ones throughout: no
replacement moves what stands in front of it. The loop goes from left to right, so the invariant
(`applyFrom_eq`) puts the text already read in front of what the loop returns for the rest.
-/

namespace SourceRepair

namespace TextEdit

/-- One of the ranges ends before the other starts. An insertion at the border of a range is apart
from it, and one inside it is not. -/
def Apart (a b : TextEdit) : Prop :=
  a.stop ≤ b.start ∨ b.stop ≤ a.start

/-- The range of an edit. -/
def range (edit : TextEdit) : Nat × Nat :=
  (edit.start, edit.stop)

/-- The edits taken from a list when everything in front of `pos` is spoken for: each one that
starts at or behind the end of the last one taken. -/
def taken (pos : Nat) : List TextEdit → List TextEdit
  | [] => []
  | edit :: more =>
    if edit.start < pos then taken pos more else edit :: taken edit.stop more

/-- The edits that are not taken. -/
def passedOver (pos : Nat) : List TextEdit → List TextEdit
  | [] => []
  | edit :: more =>
    if edit.start < pos then edit :: passedOver pos more else passedOver edit.stop more

/-- Replaces the range of one edit in a text. -/
def replaceIn (edit : TextEdit) (text : List Char) : List Char :=
  (Text.splitAtByte edit.start text).1 ++ edit.replacement ++ (Text.splitAtByte edit.stop text).2

/-- Replaces the ranges of edits one at a time, the last one first. -/
def replaceFromRight (edits : List TextEdit) (text : List Char) : List Char :=
  edits.foldr replaceIn text

theorem rangeLE_iff {a b : TextEdit} :
    rangeLE a b = true ↔ a.start < b.start ∨ a.start = b.start ∧ a.stop ≤ b.stop := by
  simp only [rangeLE, Bool.or_eq_true, decide_eq_true_eq, Bool.and_eq_true, beq_iff_eq]

theorem rangeLE_trans (a b c : TextEdit) (hab : rangeLE a b = true) (hbc : rangeLE b c = true) :
    rangeLE a c = true := by
  rw [rangeLE_iff] at hab hbc ⊢
  omega

theorem rangeLE_total (a b : TextEdit) : (rangeLE a b || rangeLE b a) = true := by
  rw [Bool.or_eq_true, rangeLE_iff, rangeLE_iff]
  omega

theorem pairwise_mergeSort_rangeLE (edits : List TextEdit) :
    (edits.mergeSort rangeLE).Pairwise fun a b => rangeLE a b = true :=
  List.pairwise_mergeSort rangeLE_trans rangeLE_total edits

/-! ## Taken or passed over -/

section Choice

variable {pos : Nat} {edits : List TextEdit}

/-- Every edit is taken or passed over. -/
theorem taken_append_passedOver_perm (pos : Nat) (edits : List TextEdit) :
    (taken pos edits ++ passedOver pos edits).Perm edits := by
  fun_induction taken pos edits with
  | case1 pos => exact List.Perm.nil
  | case2 pos edit more hlt ih =>
    rw [passedOver, if_pos hlt]
    exact List.perm_middle.trans (ih.cons edit)
  | case3 pos edit more hlt ih =>
    rw [passedOver, if_neg hlt]
    exact ih.cons edit

/-- The edits taken start behind what is spoken for, and one behind the other. -/
theorem taken_pairwise (hranges : ∀ edit ∈ edits, edit.start ≤ edit.stop) :
    (∀ edit ∈ taken pos edits, pos ≤ edit.start) ∧
      (taken pos edits).Pairwise fun a b => a.stop ≤ b.start := by
  fun_induction taken pos edits with
  | case1 pos => exact ⟨by simp, List.Pairwise.nil⟩
  | case2 pos edit more hlt ih =>
    exact ih fun e he => hranges e (List.mem_cons_of_mem edit he)
  | case3 pos edit more hlt ih =>
    obtain ⟨hedit, hmore⟩ := List.forall_mem_cons.mp hranges
    obtain ⟨hbehind, hpairwise⟩ := ih hmore
    refine ⟨List.forall_mem_cons.mpr ⟨Nat.le_of_not_lt hlt, fun later hlater => ?_⟩,
      List.pairwise_cons.mpr ⟨hbehind, hpairwise⟩⟩
    have hle := hbehind later hlater
    omega

/-- An edit that is passed over starts inside what is spoken for, or inside an edit taken that does
not start later. -/
theorem exists_taken_over (hsorted : edits.Pairwise fun a b => rangeLE a b = true) :
    ∀ edit ∈ passedOver pos edits, edit.start < pos ∨
      ∃ other ∈ taken pos edits, other.start ≤ edit.start ∧ edit.start < other.stop := by
  fun_induction passedOver pos edits with
  | case1 pos => simp
  | case2 pos first more hlt ih =>
    rw [taken, if_pos hlt]
    refine List.forall_mem_cons.mpr ⟨Or.inl hlt, ih (List.pairwise_cons.mp hsorted).2⟩
  | case3 pos first more hlt ih =>
    obtain ⟨hfirst, hmore⟩ := List.pairwise_cons.mp hsorted
    rw [taken, if_neg hlt]
    intro edit hedit
    rcases ih hmore edit hedit with hinside | ⟨other, hother, hover⟩
    · -- what the first edit speaks for is its own range
      have hmem : edit ∈ more := (taken_append_passedOver_perm first.stop more).mem_iff.mp
        (List.mem_append_right _ hedit)
      have hle := rangeLE_iff.mp (hfirst edit hmem)
      exact Or.inr ⟨first, List.mem_cons_self, by omega, hinside⟩
    · exact Or.inr ⟨other, List.mem_cons_of_mem first hother, hover⟩

/-- Edits that stand one behind the other are all taken. -/
theorem taken_eq_self (hbehind : ∀ edit ∈ edits, pos ≤ edit.start)
    (hpairwise : edits.Pairwise fun a b => a.stop ≤ b.start) : taken pos edits = edits := by
  induction edits generalizing pos with
  | nil => rfl
  | cons edit more ih =>
    obtain ⟨hedit, -⟩ := List.forall_mem_cons.mp hbehind
    obtain ⟨hlater, hmore⟩ := List.pairwise_cons.mp hpairwise
    rw [taken, if_neg (Nat.not_lt.mpr hedit), ih hlater hmore]

/-- Sorted edits that are apart stand one behind the other. -/
theorem pairwise_stop_le (hranges : ∀ edit ∈ edits, edit.start ≤ edit.stop)
    (hsorted : edits.Pairwise fun a b => rangeLE a b = true) (hapart : edits.Pairwise Apart) :
    edits.Pairwise fun a b => a.stop ≤ b.start := by
  refine (hsorted.and hapart).imp_of_mem fun {a b} ha hb h => ?_
  obtain ⟨hle, hends | hends⟩ := h
  · exact hends
  · -- two empty ranges at one place
    have hrange := hranges b hb
    have horder := rangeLE_iff.mp hle
    omega

end Choice

/-! ## Copying and replacing -/

/-- A range is replaced where it stands. -/
theorem replaceIn_of_places {before old after : List Char} {edit : TextEdit}
    (hstart : edit.start = Text.utf8Size before)
    (hstop : edit.stop = Text.utf8Size (before ++ old)) :
    edit.replaceIn (before ++ (old ++ after)) = before ++ (edit.replacement ++ after) := by
  rw [replaceIn, hstart, Text.splitAtByte_utf8Size, hstop, ← List.append_assoc before old,
    Text.splitAtByte_utf8Size, List.append_assoc]

/-- With the text already read in front of it, what the loop returns is the text in which the ranges
taken have been replaced from right to left. -/
theorem applyFrom_eq {edits : List TextEdit} (before rest : List Char)
    (hvalid : ∀ edit ∈ edits, ∃ old, edit.Replaces (before ++ rest) old) :
    before ++ (applyFrom (Text.utf8Size before) rest edits).1
        = replaceFromRight (taken (Text.utf8Size before) edits) (before ++ rest) ∧
      (applyFrom (Text.utf8Size before) rest edits).2
        = (taken (Text.utf8Size before) edits).length := by
  induction edits generalizing before rest with
  | nil => exact ⟨rfl, rfl⟩
  | cons edit more ih =>
    obtain ⟨hedit, hmore⟩ := List.forall_mem_cons.mp hvalid
    by_cases hdropped : edit.start < Text.utf8Size before
    · rw [applyFrom_cons_of_lt more hdropped, taken, if_pos hdropped]
      exact ih before rest hmore
    · obtain ⟨old, before', after, htext, hstart, hstop⟩ := hedit
      obtain ⟨kept, rfl, rfl⟩ := Text.exists_of_append_eq_append htext (by omega)
      have hplace : edit.stop = Text.utf8Size (before ++ (kept ++ old)) := by
        rw [hstop, hstart, ← List.append_assoc, ← Text.utf8Size_append]
      obtain ⟨htail, hcount⟩ := ih (before ++ (kept ++ old)) after fun e he => by
        simpa only [List.append_assoc] using hmore e he
      rw [← hplace] at htail hcount
      rw [applyFrom_cons_of_places more hstart hplace, taken, if_neg hdropped]
      refine ⟨?_, congrArg (· + 1) hcount⟩
      -- all other ranges lie behind this one, and its offsets still hold when its turn comes
      have hbehind : replaceFromRight (taken edit.stop more) (before ++ (kept ++ (old ++ after)))
          = (before ++ kept) ++ (old ++ (applyFrom edit.stop after more).1) := by
        simpa only [List.append_assoc] using htail.symm
      rw [replaceFromRight, List.foldr_cons, ← replaceFromRight, hbehind,
        replaceIn_of_places hstart (by rw [hplace, List.append_assoc]), List.append_assoc]

/-- The range of an edit that stands in a text ends behind its start. -/
theorem Replaces.start_le_stop {edit : TextEdit} {text old : List Char}
    (h : edit.Replaces text old) : edit.start ≤ edit.stop := by
  obtain ⟨_, _, -, -, hstop⟩ := h
  exact hstop ▸ Nat.le_add_right _ _

/-- Edits with different ranges come in one order only. -/
theorem mergeSort_eq_of_perm {edits edits' : List TextEdit} (h : edits'.Perm edits)
    (hdistinct : (edits.map range).Nodup) : edits'.mergeSort rangeLE = edits.mergeSort rangeLE := by
  have hperm : (edits'.mergeSort rangeLE).Perm (edits.mergeSort rangeLE) :=
    (List.mergeSort_perm edits' rangeLE).trans (h.trans (List.mergeSort_perm edits rangeLE).symm)
  refine hperm.eq_of_pairwise (fun a b ha hb hab hba => ?_) (pairwise_mergeSort_rangeLE edits')
    (pairwise_mergeSort_rangeLE edits)
  rw [rangeLE_iff] at hab hba
  have hrange : range a = range b := Prod.ext (show a.start = b.start by omega)
    (show a.stop = b.stop by omega)
  exact List.inj_on_of_nodup_map hdistinct (h.mem_iff.mp (List.mem_mergeSort.mp ha))
    (List.mem_mergeSort.mp hb) hrange

end TextEdit

/-! ## The fixes of findings -/

/-- Fixes are applied greedily: in order of their ranges, each that starts at or behind the end of
the last one applied. The text is the one in which these ranges have been replaced from right to
left, and a fix that is passed over starts inside an applied one that does not start later. If no
two fixes overlap all are applied, and if their ranges differ as well, the order of the findings
does not count. -/
theorem applyFixes_greedy {text : List Char} {findings : List Finding}
    (hvalid : ∀ finding ∈ findings, ∀ edit ∈ finding.fix, ∃ old, edit.Replaces text old) :
    let fixes := findings.filterMap (·.fix)
    let taken := TextEdit.taken 0 (fixes.mergeSort TextEdit.rangeLE)
    let passedOver := TextEdit.passedOver 0 (fixes.mergeSort TextEdit.rangeLE)
    applyFixes text findings = (TextEdit.replaceFromRight taken text, taken.length) ∧
      taken.Pairwise (fun a b => a.stop ≤ b.start) ∧ (taken ++ passedOver).Perm fixes ∧
      (∀ edit ∈ passedOver, ∃ other ∈ taken, other.start ≤ edit.start ∧
        edit.start < other.stop) ∧
      (fixes.Pairwise TextEdit.Apart → (applyFixes text findings).2 = fixes.length ∧
        ((fixes.map TextEdit.range).Nodup → ∀ findings' : List Finding,
          findings'.Perm findings → applyFixes text findings' = applyFixes text findings)) := by
  intro fixes taken passedOver
  have hfixes : ∀ edit ∈ fixes.mergeSort TextEdit.rangeLE, ∃ old, edit.Replaces text old := by
    intro edit hedit
    obtain ⟨finding, hfinding, hfix⟩ := List.mem_filterMap.mp (List.mem_mergeSort.mp hedit)
    exact hvalid finding hfinding edit hfix
  have hranges : ∀ edit ∈ fixes.mergeSort TextEdit.rangeLE, edit.start ≤ edit.stop := by
    intro edit hedit
    obtain ⟨old, hold⟩ := hfixes edit hedit
    exact hold.start_le_stop
  have hsorted := TextEdit.pairwise_mergeSort_rangeLE fixes
  have hperm := List.mergeSort_perm fixes TextEdit.rangeLE
  obtain ⟨htext, hcount⟩ := TextEdit.applyFrom_eq [] text hfixes
  refine ⟨Prod.ext htext hcount, (TextEdit.taken_pairwise hranges).2,
    (TextEdit.taken_append_passedOver_perm 0 _).trans hperm, fun edit hedit => ?_,
    fun hapart => ⟨?_, fun hdistinct findings' hfindings => ?_⟩⟩
  · exact (TextEdit.exists_taken_over hsorted edit hedit).resolve_left (Nat.not_lt_zero _)
  · have hapart' : (fixes.mergeSort TextEdit.rangeLE).Pairwise TextEdit.Apart :=
      hapart.perm hperm.symm Or.symm
    have hall : taken = fixes.mergeSort TextEdit.rangeLE :=
      TextEdit.taken_eq_self (fun _ _ => Nat.zero_le _)
        (TextEdit.pairwise_stop_le hranges hsorted hapart')
    have hlength : (applyFixes text findings).2 = taken.length := hcount
    rw [hlength, hall, hperm.length_eq]
  · rw [applyFixes, applyFixes, TextEdit.mergeSort_eq_of_perm (hfindings.filterMap _) hdistinct]

/-- Four fixes in one text: two that touch, one that reaches from the second of them into what
follows and is passed over, and an insertion where the second one ends. -/
theorem applyFixes_greedy_touching :
    let finding (start stop : Nat) (new : String) : Finding :=
      ⟨"a", .error, 1, 1, [], "", some ⟨start, stop, new.toList⟩⟩
    let findings := [finding 4 4 "!", finding 3 5 "long", finding 2 4 "X", finding 0 2 ""]
    (∀ finding ∈ findings, ∀ edit ∈ finding.fix, ∃ old, edit.Replaces "abcdef".toList old) ∧
      let fixes := findings.filterMap (·.fix)
      let taken := TextEdit.taken 0 (fixes.mergeSort TextEdit.rangeLE)
      let passedOver := TextEdit.passedOver 0 (fixes.mergeSort TextEdit.rangeLE)
      applyFixes "abcdef".toList findings
          = (TextEdit.replaceFromRight taken "abcdef".toList, taken.length) ∧
        taken.Pairwise (fun a b => a.stop ≤ b.start) ∧ (taken ++ passedOver).Perm fixes ∧
        (∀ edit ∈ passedOver, ∃ other ∈ taken, other.start ≤ edit.start ∧
          edit.start < other.stop) ∧
        (fixes.Pairwise TextEdit.Apart →
          (applyFixes "abcdef".toList findings).2 = fixes.length ∧
          ((fixes.map TextEdit.range).Nodup → ∀ findings' : List Finding,
            findings'.Perm findings →
              applyFixes "abcdef".toList findings' = applyFixes "abcdef".toList findings)) := by
  intro finding findings
  have hvalid : ∀ finding ∈ findings, ∀ edit ∈ finding.fix,
      ∃ old, edit.Replaces "abcdef".toList old := by
    intro f hf edit hedit
    simp only [findings, List.mem_cons, List.not_mem_nil, or_false] at hf
    rcases hf with rfl | rfl | rfl | rfl <;> obtain rfl := Option.some.inj hedit
    · exact ⟨[], "abcd".toList, "ef".toList, rfl, rfl, rfl⟩
    · exact ⟨"de".toList, "abc".toList, "f".toList, rfl, rfl, rfl⟩
    · exact ⟨"cd".toList, "ab".toList, "ef".toList, rfl, rfl, rfl⟩
    · exact ⟨"ab".toList, [], "cdef".toList, rfl, rfl, rfl⟩
  exact ⟨hvalid, applyFixes_greedy hvalid⟩

end SourceRepair
