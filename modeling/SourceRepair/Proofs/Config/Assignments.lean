import Mathlib.Data.List.Induction
import SourceRepair.Proofs.Config.Merging

/-!
# Assignments on the command line

An assignment is cut at its first `=`, and what follows is a truth value, a whole number or a text
(`typedValue_eq_string`). Of several assignments to the same steps only the last one is kept, where
it stands (`find?_foldl_add`), and since assignments to keys apart from one another do not get in
each other's way, what is found at some keys in the end is what was assigned to them last
(`at?_foldl_apply`).
-/

namespace SourceRepair.Config

open Setting (at? Apart)

/-! ## Values -/

/-- A text writes a whole number of sixty-four bits: in digits, perhaps with a sign in front. -/
def WritesWord (text : List Char) : Prop :=
  ∃ sign digits, text = sign ++ digits ∧ (sign = [] ∨ sign = ['+'] ∨ sign = ['-']) ∧
    digits ≠ [] ∧ (∀ c ∈ digits, Text.isDecimal c = true) ∧
    -Int.pow 2 63 ≤ Text.signed (sign = ['-']) (Text.digitsValue 10 digits) ∧
    Text.signed (sign = ['-']) (Text.digitsValue 10 digits) < Int.pow 2 63

theorem isWord_iff {n : Int} : isWord n = true ↔ -Int.pow 2 63 ≤ n ∧ n < Int.pow 2 63 := by
  rw [isWord, Bool.and_eq_true, decide_eq_true_eq, decide_eq_true_eq]

/-- A sign is split off, if there is one. -/
theorem splitSign_append {sign digits : List Char}
    (hsign : sign = [] ∨ sign = ['+'] ∨ sign = ['-'])
    (hdigits : ∀ c ∈ digits, Text.isDecimal c = true) :
    Text.splitSign (sign ++ digits) = (decide (sign = ['-']), digits) := by
  rcases hsign with rfl | rfl | rfl
  · rw [List.nil_append, Text.splitSign.eq_def]
    split
    · exact absurd (hdigits '-' List.mem_cons_self) (by decide)
    · exact absurd (hdigits '+' List.mem_cons_self) (by decide)
    · rfl
  · rfl
  · rfl

/-- What stands in front of the rest is the sign, if any. -/
theorem eq_append_splitSign (text : List Char) : ∃ sign,
    text = sign ++ (Text.splitSign text).2 ∧ (sign = [] ∨ sign = ['+'] ∨ sign = ['-']) ∧
      (Text.splitSign text).1 = decide (sign = ['-']) := by
  rw [Text.splitSign.eq_def]
  split
  · exact ⟨['-'], rfl, .inr (.inr rfl), rfl⟩
  · exact ⟨['+'], rfl, .inr (.inl rfl), rfl⟩
  · exact ⟨[], rfl, .inl rfl, rfl⟩

/-- A whole number is read off a text that writes one, and off no other. -/
theorem wholeNumber?_isSome_iff {text : List Char} :
    (wholeNumber? text).isSome = true ↔ WritesWord text := by
  have hread : (wholeNumber? text).isSome = true ↔ (Text.splitSign text).2 ≠ [] ∧
      (∀ c ∈ (Text.splitSign text).2, Text.isDecimal c = true) ∧
      isWord (Text.signed (Text.splitSign text).1
        (Text.digitsValue 10 (Text.splitSign text).2)) = true := by
    simp [wholeNumber?, and_assoc]
  rw [hread]
  constructor
  · rintro ⟨hsome, hdigits, hword⟩
    obtain ⟨sign, htext, hsign, hnegative⟩ := eq_append_splitSign text
    exact ⟨sign, _, htext, hsign, hsome, hdigits, isWord_iff.mp (hnegative ▸ hword)⟩
  · rintro ⟨sign, digits, rfl, hsign, hsome, hdigits, hword⟩
    rw [splitSign_append hsign hdigits]
    exact ⟨hsome, hdigits, isWord_iff.mpr hword⟩

/-- A text that is no truth value and no whole number stands for itself. -/
theorem typedValue_eq_string {text : List Char} (htrue : text ≠ "true".toList)
    (hfalse : text ≠ "false".toList) (hword : ¬ WritesWord text) :
    typedValue text = .string (String.ofList text) := by
  have hnone : wholeNumber? text = none := by
    rw [← Option.not_isSome_iff_eq_none, wholeNumber?_isSome_iff]
    exact hword
  rw [typedValue, if_neg htrue, if_neg hfalse, hnone]

/-! ## Written assignments -/

/-- An assignment is split where its name ends. -/
theorem Assignment.ofText_append {name text : String} {steps : List Setting.Step}
    (hname : '=' ∉ name.toList) (hpath : Setting.readPath? name = some steps) :
    Assignment.ofText (name ++ "=" ++ text) = .ok ⟨steps, typedValue text.toList⟩ := by
  have hchars : (name ++ "=" ++ text).toList = name.toList ++ '=' :: text.toList := by simp
  have hfront : ∀ c ∈ name.toList, (c != '=') = true := fun c hc =>
    bne_iff_ne.mpr fun h => hname (h ▸ hc)
  rw [Assignment.ofText, hchars, List.dropWhile_append_of_pos hfront,
    List.takeWhile_append_of_pos hfront]
  simp [hpath]

/-! ## The last one counts -/

/-- The assignment to some steps that is kept is the last one. -/
theorem find?_foldl_add (assignments : List Assignment) (steps : List Setting.Step) :
    (assignments.foldl Assignment.add []).reverse.find? (·.steps = steps)
      = assignments.reverse.find? (·.steps = steps) := by
  induction assignments using List.reverseRecOn with
  | nil => rfl
  | append_singleton before last ih =>
    rw [List.foldl_append, List.foldl_cons, List.foldl_nil, Assignment.add, List.reverse_concat,
      List.reverse_concat, List.find?_cons, List.find?_cons]
    split
    · rfl
    · rename_i hsteps
      rw [← List.filter_reverse, List.find?_filter, ← ih]
      -- what is passed over for the last one has other steps than those looked for
      have hother : last.steps ≠ steps := of_decide_eq_false hsteps
      congr 1
      funext assignment
      refine decide_eq_decide.mpr ⟨fun h => of_decide_eq_true h.2, fun h => ?_⟩
      exact ⟨decide_eq_true fun hlast => hother (hlast.symm.trans h), decide_eq_true h⟩

/-- Nothing is kept but what has been assigned. -/
theorem mem_of_mem_foldl_add {assignments : List Assignment} {assignment : Assignment}
    (h : assignment ∈ assignments.foldl Assignment.add []) : assignment ∈ assignments := by
  induction assignments using List.reverseRecOn with
  | nil => exact h
  | append_singleton before last ih =>
    rw [List.foldl_append, List.foldl_cons, List.foldl_nil, Assignment.add] at h
    rcases List.mem_append.mp h with h | h
    · exact List.mem_append_left _ (ih (List.mem_filter.mp h).1)
    · exact List.mem_append_right _ h

/-- Different keys are different steps. -/
theorem map_key_injective : Function.Injective (List.map Setting.Step.key) :=
  List.map_injective_iff.mpr fun _ _ => Setting.Step.key.inj

/-- Assignments to keys leave a table a table. -/
theorem exists_table_foldl_apply {assignments : List Assignment}
    (h : ∀ assignment ∈ assignments, ∃ key steps, assignment.steps = .key key :: steps)
    {base : Setting} (hbase : ∃ members, base = .table members) :
    ∃ members, assignments.foldl Assignment.apply base = .table members := by
  induction assignments generalizing base with
  | nil => exact hbase
  | cons first more ih =>
    obtain ⟨⟨key, steps, hsteps⟩, hmore⟩ := List.forall_mem_cons.mp h
    refine ih hmore ?_
    rw [Assignment.apply, hsteps]
    exact ⟨_, rfl⟩

/-- What is found at some keys after assignments is what was assigned to them last, or what was
there before. -/
theorem at?_foldl_apply {assignments : List Assignment} {keys : List String}
    (h : ∀ assignment ∈ assignments, ∃ others, assignment.steps = others.map .key ∧
      Apart keys others ∧ ∀ members, assignment.value ≠ .table members)
    (base : Setting) :
    at? keys (assignments.foldl Assignment.apply base)
      = ((assignments.reverse.find? (·.steps = keys.map .key)).map (·.value)).or
        (at? keys base) := by
  induction assignments using List.reverseRecOn with
  | nil => rfl
  | append_singleton before last ih =>
    obtain ⟨others, hsteps, hapart, hvalue⟩ := h last (List.mem_append_right _ List.mem_cons_self)
    have hbefore := ih fun assignment hmem => h assignment (List.mem_append_left _ hmem)
    rw [List.foldl_append, List.foldl_cons, List.foldl_nil, Assignment.apply, hsteps,
      Setting.setAt_eq_merge, Setting.at?_merge (Setting.leadsToValue_nest hvalue hapart),
      Setting.at?_nest hapart, hbefore, List.reverse_concat, List.find?_cons]
    by_cases hkeys : keys = others
    · rw [if_pos hkeys, decide_eq_true (by rw [hsteps, hkeys])]
      rfl
    · have hother : last.steps ≠ keys.map .key := fun hsame =>
        hkeys (map_key_injective (hsame.symm.trans hsteps))
      rw [if_neg hkeys, decide_eq_false hother]
      rfl

end SourceRepair.Config
