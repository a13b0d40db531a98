import Mathlib
import SourceRepair.Pattern.Search

/-!
# What a pattern reads

`Pattern.Reads p before word rest groups` says that `p` can read `word` between `before` (nearest
character first) and `rest` and captures `groups` on the way, latest first. It is a relation on
texts, defined by recursion on the pattern, without places and without preference. `mem_ends_iff`
says that the ends of a pattern are exactly the places reached by what it reads, so whatever holds
of all words in the relation holds of every match.

`OnlyReads`, `FirstReads`, `LastReads` and `groupNames` bound what a pattern reads and captures by
looking at the pattern alone.
-/

namespace SourceRepair

/-- The groups captured in a piece of a text, latest first. -/
abbrev Captures : Type := List (String × List Char)

/-- The place `d` lies behind the place `c`, with `word` between them, and `groups` are captured
from one to the other. -/
structure Cursor.Reaches (c : Cursor) (word : List Char) (groups : Captures) (d : Cursor) :
    Prop where
  rest_eq : c.rest = word ++ d.rest
  before_eq : d.before = word.reverse ++ c.before
  groups_eq : d.groups = groups ++ c.groups

namespace Cursor.Reaches

variable {c d m : Cursor} {word front back : List Char} {groups early late : Captures}

theorem refl (c : Cursor) : c.Reaches [] [] c :=
  ⟨rfl, rfl, rfl⟩

theorem trans (h : c.Reaches front early m) (h' : m.Reaches back late d) :
    c.Reaches (front ++ back) (late ++ early) d where
  rest_eq := by rw [h.rest_eq, h'.rest_eq, List.append_assoc]
  before_eq := by rw [h'.before_eq, h.before_eq, List.reverse_append, List.append_assoc]
  groups_eq := by rw [h'.groups_eq, h.groups_eq, List.append_assoc]

/-- A place that is reached by reading two words lies behind the one between them. -/
theorem exists_between (h : c.Reaches (front ++ back) (late ++ early) d) :
    ∃ m, c.Reaches front early m ∧ m.Reaches back late d := by
  obtain ⟨hrest, hbefore, hgroups⟩ := h
  rw [List.append_assoc] at hrest hgroups
  rw [List.reverse_append, List.append_assoc] at hbefore
  exact ⟨⟨front.reverse ++ c.before, back ++ d.rest, early ++ c.groups⟩, ⟨hrest, rfl, rfl⟩,
    ⟨rfl, hbefore, hgroups⟩⟩

/-- The word and the groups determine the place that is reached. -/
theorem unique (h : c.Reaches word groups d) (h' : c.Reaches word groups m) : m = d := by
  obtain ⟨hrest, hbefore, hgroups⟩ := h
  obtain ⟨hrest', hbefore', hgroups'⟩ := h'
  cases d
  cases m
  simp_all

theorem length_lt (h : c.Reaches word groups d) (hword : word ≠ []) :
    d.rest.length < c.rest.length := by
  have hpos : 0 < word.length := List.length_pos_iff.mpr hword
  rw [h.rest_eq, List.length_append]
  omega

theorem upTo_eq (h : c.Reaches word groups d) : c.upTo d = word := by
  simp [upTo, h.rest_eq]

theorem capture (h : c.Reaches word groups d) (name : String) :
    c.Reaches word ((name, word) :: groups) (d.capture name c) where
  rest_eq := h.rest_eq
  before_eq := h.before_eq
  groups_eq := by rw [Cursor.capture, h.upTo_eq, h.groups_eq, List.cons_append]

end Cursor.Reaches

namespace Pattern

/-- Any number of rounds of `step` one after another, each of at least one character. -/
inductive Rounds (step : List Char → List Char → List Char → Captures → Prop) :
    List Char → List Char → List Char → Captures → Prop
  | done (before rest : List Char) : Rounds step before [] rest []
  | more {before round word rest : List Char} {groups later : Captures}
      (hround : round ≠ []) (hstep : step before round (word ++ rest) groups)
      (hmore : Rounds step (round.reverse ++ before) word rest later) :
      Rounds step before (round ++ word) rest (later ++ groups)

/-- The pattern can read `word` between `before` and `rest`, capturing `groups`. -/
def Reads : Pattern → (before word rest : List Char) → (groups : Captures) → Prop
  | .empty, _, word, _, groups => word = [] ∧ groups = []
  | .one accepts, _, word, _, groups => ∃ c, accepts c = true ∧ word = [c] ∧ groups = []
  | .seq first second, before, word, rest, groups =>
    ∃ front back early late, word = front ++ back ∧ groups = late ++ early ∧
      Reads first before front (back ++ rest) early ∧
      Reads second (front.reverse ++ before) back rest late
  | .alt left right, before, word, rest, groups =>
    Reads left before word rest groups ∨ Reads right before word rest groups
  | .repeated _ body, before, word, rest, groups => Rounds (Reads body) before word rest groups
  | .group name body, before, word, rest, groups =>
    ∃ inner, groups = (name, word) :: inner ∧ Reads body before word rest inner
  | .assertion condition, before, word, rest, groups =>
    word = [] ∧ groups = [] ∧ condition.holds before rest = true

/-- The pattern reads from the place `c` to the place `d`. -/
def ReadsTo (p : Pattern) (c d : Cursor) : Prop :=
  ∃ word groups, c.Reaches word groups d ∧ p.Reads c.before word d.rest groups

/-! ## The ends of a pattern are what it reads -/

section ReadsTo

variable {c d : Cursor}

theorem readsTo_empty_iff : empty.ReadsTo c d ↔ d = c := by
  constructor
  · rintro ⟨_, _, h, rfl, rfl⟩
    exact (Cursor.Reaches.refl c).unique h
  · rintro rfl
    exact ⟨[], [], .refl d, rfl, rfl⟩

theorem readsTo_one_iff {accepts : Char → Bool} :
    (one accepts).ReadsTo c d ↔ ∃ x, accepts x = true ∧ c.Reaches [x] [] d := by
  constructor
  · rintro ⟨_, _, h, x, hx, rfl, rfl⟩
    exact ⟨x, hx, h⟩
  · rintro ⟨x, hx, h⟩
    exact ⟨[x], [], h, x, hx, rfl, rfl⟩

theorem readsTo_seq_iff {first second : Pattern} :
    (seq first second).ReadsTo c d ↔ ∃ m, first.ReadsTo c m ∧ second.ReadsTo m d := by
  constructor
  · rintro ⟨_, _, h, front, back, early, late, rfl, rfl, hfront, hback⟩
    obtain ⟨m, h₁, h₂⟩ := h.exists_between
    exact ⟨m, ⟨front, early, h₁, h₂.rest_eq ▸ hfront⟩, ⟨back, late, h₂, h₁.before_eq ▸ hback⟩⟩
  · rintro ⟨m, ⟨front, early, h₁, hfront⟩, ⟨back, late, h₂, hback⟩⟩
    exact ⟨front ++ back, late ++ early, h₁.trans h₂, front, back, early, late, rfl, rfl,
      h₂.rest_eq ▸ hfront, h₁.before_eq ▸ hback⟩

theorem readsTo_alt_iff {left right : Pattern} :
    (alt left right).ReadsTo c d ↔ left.ReadsTo c d ∨ right.ReadsTo c d := by
  constructor
  · rintro ⟨word, groups, h, hword | hword⟩
    · exact Or.inl ⟨word, groups, h, hword⟩
    · exact Or.inr ⟨word, groups, h, hword⟩
  · rintro (⟨word, groups, h, hword⟩ | ⟨word, groups, h, hword⟩)
    · exact ⟨word, groups, h, Or.inl hword⟩
    · exact ⟨word, groups, h, Or.inr hword⟩

/-- A repetition ends where it starts, or behind a round that gets ahead and what follows it. -/
theorem readsTo_repeated_iff {lazy : Bool} {body : Pattern} :
    (repeated lazy body).ReadsTo c d ↔
      (∃ m, body.ReadsTo c m ∧ m.rest.length < c.rest.length ∧ (repeated lazy body).ReadsTo m d) ∨
        d = c := by
  constructor
  · rintro ⟨word, groups, h, hword⟩
    rw [Reads] at hword
    cases hword with
    | done => exact Or.inr ((Cursor.Reaches.refl c).unique h)
    | @more _ round word _ groups later hround hstep hmore =>
      obtain ⟨m, h₁, h₂⟩ := h.exists_between
      refine Or.inl ⟨m, ⟨round, groups, h₁, h₂.rest_eq ▸ hstep⟩, h₁.length_lt hround, ?_⟩
      exact ⟨word, later, h₂, h₁.before_eq ▸ hmore⟩
  · rintro (⟨m, ⟨round, groups, h₁, hround⟩, hlt, ⟨word, later, h₂, hword⟩⟩ | rfl)
    · have hne : round ≠ [] := by
        rintro rfl
        exact absurd hlt (by simp [h₁.rest_eq])
      exact ⟨round ++ word, later ++ groups, h₁.trans h₂,
        Rounds.more hne (h₂.rest_eq ▸ hround) (h₁.before_eq ▸ hword)⟩
    · exact ⟨[], [], .refl d, Rounds.done _ _⟩

theorem readsTo_group_iff {name : String} {body : Pattern} :
    (group name body).ReadsTo c d ↔ ∃ m, body.ReadsTo c m ∧ m.capture name c = d := by
  constructor
  · rintro ⟨word, _, h, inner, rfl, hword⟩
    have hinner : c.Reaches word inner ⟨d.before, d.rest, inner ++ c.groups⟩ :=
      ⟨h.rest_eq, h.before_eq, rfl⟩
    exact ⟨_, ⟨word, inner, hinner, hword⟩, h.unique (hinner.capture name)⟩
  · rintro ⟨m, ⟨word, inner, h, hword⟩, rfl⟩
    exact ⟨word, (name, word) :: inner, h.capture name, inner, rfl, hword⟩

theorem readsTo_assertion_iff {condition : Assertion} :
    (assertion condition).ReadsTo c d ↔ condition.holds c.before c.rest = true ∧ d = c := by
  constructor
  · rintro ⟨_, _, h, rfl, rfl, hholds⟩
    obtain rfl := (Cursor.Reaches.refl c).unique h
    exact ⟨hholds, rfl⟩
  · rintro ⟨hholds, rfl⟩
    exact ⟨[], [], .refl d, rfl, rfl, hholds⟩

end ReadsTo

theorem mem_ends_one_iff {accepts : Char → Bool} {c d : Cursor} :
    d ∈ (one accepts).ends c ↔ ∃ x, accepts x = true ∧ c.Reaches [x] [] d := by
  rw [ends]
  constructor
  · intro hd
    split at hd
    · exact absurd hd (by simp)
    · rename_i x r hr
      split at hd
      · rename_i hx
        obtain rfl := List.mem_singleton.mp hd
        exact ⟨x, hx, hr, rfl, rfl⟩
      · exact absurd hd (by simp)
  · rintro ⟨x, hx, h⟩
    have hd : c.Reaches [x] [] ⟨x :: c.before, d.rest, c.groups⟩ := ⟨h.rest_eq, rfl, rfl⟩
    rw [h.rest_eq]
    simp only [List.singleton_append, hx, if_true, List.mem_singleton]
    exact hd.unique h

theorem mem_rounds {lazy : Bool} {step : Cursor → List Cursor} {c d : Cursor} :
    d ∈ rounds lazy step c ↔
      (∃ m ∈ step c, m.rest.length < c.rest.length ∧ d ∈ rounds lazy step m) ∨ d = c := by
  rw [rounds, mem_stopOr, List.mem_flatMap]
  refine or_congr_left (exists_congr fun m => and_congr_right fun _ => ?_)
  split <;> simp [*]

/-- Repeating a step reads rounds of what the step reads. -/
theorem mem_rounds_iff {lazy : Bool} {body : Pattern}
    (hbody : ∀ c d, d ∈ body.ends c ↔ body.ReadsTo c d) (c d : Cursor) :
    d ∈ rounds lazy body.ends c ↔ (repeated lazy body).ReadsTo c d := by
  -- a round that reads nothing is dropped, so what is left to read gets shorter
  induction hn : c.rest.length using Nat.strongRecOn generalizing c with
  | _ n ih =>
    subst hn
    rw [mem_rounds, readsTo_repeated_iff]
    refine or_congr_left (exists_congr fun m => ?_)
    rw [hbody]
    exact and_congr_right fun _ => and_congr_right fun hlt => ih _ hlt m rfl

/-- The ends of a pattern are the places it reads to. -/
theorem mem_ends_iff (p : Pattern) (c d : Cursor) : d ∈ p.ends c ↔ p.ReadsTo c d := by
  induction p generalizing c d with
  | empty => rw [ends, List.mem_singleton, readsTo_empty_iff]
  | one accepts => rw [mem_ends_one_iff, readsTo_one_iff]
  | seq first second ih₁ ih₂ =>
    simp only [ends, List.mem_flatMap, ih₁, ih₂, readsTo_seq_iff]
  | alt left right ih₁ ih₂ => rw [ends, List.mem_append, ih₁, ih₂, readsTo_alt_iff]
  | repeated lazy body ih => exact mem_rounds_iff ih c d
  | group name body ih => simp only [ends, List.mem_map, ih, readsTo_group_iff]
  | assertion condition =>
    rw [ends, readsTo_assertion_iff]
    split <;> simp [*]

/-! ## Bounds read off a pattern -/

/-- All characters that the pattern can read have the property `good`. -/
def OnlyReads (good : Char → Prop) : Pattern → Prop
  | .empty => True
  | .one accepts => ∀ c, accepts c = true → good c
  | .seq first second => OnlyReads good first ∧ OnlyReads good second
  | .alt left right => OnlyReads good left ∧ OnlyReads good right
  | .repeated _ body => OnlyReads good body
  | .group _ body => OnlyReads good body
  | .assertion _ => True

/-- What the pattern reads begins with a character with the property `good`, if it reads
anything. -/
def FirstReads (good : Char → Prop) : Pattern → Prop
  | .empty => True
  | .one accepts => ∀ c, accepts c = true → good c
  | .seq first second => FirstReads good first ∧ (first.consumes = true ∨ FirstReads good second)
  | .alt left right => FirstReads good left ∧ FirstReads good right
  | .repeated _ body => FirstReads good body
  | .group _ body => FirstReads good body
  | .assertion _ => True

/-- What the pattern reads ends with a character with the property `good`, if it reads anything. -/
def LastReads (good : Char → Prop) : Pattern → Prop
  | .empty => True
  | .one accepts => ∀ c, accepts c = true → good c
  | .seq first second => LastReads good second ∧ (second.consumes = true ∨ LastReads good first)
  | .alt left right => LastReads good left ∧ LastReads good right
  | .repeated _ body => LastReads good body
  | .group _ body => LastReads good body
  | .assertion _ => True

/-- The names of the groups in a pattern. -/
def groupNames : Pattern → List String
  | .empty => []
  | .one _ => []
  | .seq first second => groupNames first ++ groupNames second
  | .alt left right => groupNames left ++ groupNames right
  | .repeated _ body => groupNames body
  | .group name body => name :: groupNames body
  | .assertion _ => []

/-- What holds of all characters that a pattern can read holds of those it has read. -/
theorem Reads.forall_mem {good : Char → Prop} {p : Pattern} {before word rest : List Char}
    {groups : Captures} (h : p.Reads before word rest groups) (hp : p.OnlyReads good) :
    ∀ c ∈ word, good c := by
  induction p generalizing before word rest groups with
  | empty => simp [h.1]
  | one accepts =>
    obtain ⟨x, hx, rfl, -⟩ := h
    intro c hc
    rw [List.mem_singleton] at hc
    exact hc ▸ hp x hx
  | seq first second ih₁ ih₂ =>
    obtain ⟨front, back, early, late, rfl, -, hfront, hback⟩ := h
    intro c hc
    exact (List.mem_append.mp hc).elim (ih₁ hfront hp.1 c) (ih₂ hback hp.2 c)
  | alt left right ih₁ ih₂ => exact h.elim (ih₁ · hp.1) (ih₂ · hp.2)
  | repeated lazy body ih =>
    rw [Reads] at h
    induction h with
    | done => simp
    | more hround hstep hmore ihmore =>
      intro c hc
      exact (List.mem_append.mp hc).elim (ih hstep hp c) (ihmore c)
  | group name body ih =>
    obtain ⟨inner, -, hword⟩ := h
    exact ih hword hp
  | assertion condition => simp [h.1]

/-- A pattern that is said to read something does. -/
theorem Reads.ne_nil {p : Pattern} {before word rest : List Char} {groups : Captures}
    (h : p.Reads before word rest groups) (hp : p.consumes = true) : word ≠ [] := by
  induction p generalizing before word rest groups with
  | empty => exact absurd hp (by simp [consumes])
  | one accepts =>
    obtain ⟨c, -, rfl, -⟩ := h
    exact List.cons_ne_nil c []
  | seq first second ih₁ ih₂ =>
    obtain ⟨front, back, early, late, rfl, -, hfront, hback⟩ := h
    rw [consumes, Bool.or_eq_true] at hp
    rcases hp with hp | hp
    · exact List.append_ne_nil_of_left_ne_nil (ih₁ hfront hp) back
    · exact List.append_ne_nil_of_right_ne_nil front (ih₂ hback hp)
  | alt left right ih₁ ih₂ =>
    rw [consumes, Bool.and_eq_true] at hp
    exact h.elim (ih₁ · hp.1) (ih₂ · hp.2)
  | repeated lazy body _ => exact absurd hp (by simp [consumes])
  | group name body ih =>
    obtain ⟨inner, -, hword⟩ := h
    exact ih hword hp
  | assertion condition => exact absurd hp (by simp [consumes])

/-- What holds of all characters that a pattern can begin with holds of the one that it has begun
with. -/
theorem Reads.forall_head {good : Char → Prop} {p : Pattern} {before word rest : List Char}
    {groups : Captures} (h : p.Reads before word rest groups) (hp : p.FirstReads good) :
    ∀ c ∈ word.head?, good c := by
  induction p generalizing before word rest groups with
  | empty => simp [h.1]
  | one accepts =>
    obtain ⟨x, hx, rfl, -⟩ := h
    intro c hc
    obtain rfl := Option.some.inj hc
    exact hp x hx
  | seq first second ih₁ ih₂ =>
    obtain ⟨front, back, early, late, rfl, -, hfront, hback⟩ := h
    obtain ⟨hfirst, hsecond⟩ := hp
    cases front with
    | nil =>
      -- only a first part that has to read something hides the second one
      rcases hsecond with hconsumes | hsecond
      · exact absurd rfl (hfront.ne_nil hconsumes)
      · exact ih₂ hback hsecond
    | cons x front =>
      intro c hc
      obtain rfl := Option.some.inj hc
      exact ih₁ hfront hfirst x rfl
  | alt left right ih₁ ih₂ => exact h.elim (ih₁ · hp.1) (ih₂ · hp.2)
  | repeated lazy body ih =>
    rw [Reads] at h
    cases h with
    | done => simp
    | @more _ round word _ _ _ hround hstep _ =>
      obtain ⟨x, round, rfl⟩ := List.exists_cons_of_ne_nil hround
      intro c hc
      obtain rfl := Option.some.inj hc
      exact ih hstep hp x rfl
  | group name body ih =>
    obtain ⟨inner, -, hword⟩ := h
    exact ih hword hp
  | assertion condition => simp [h.1]

/-- What holds of all characters that a pattern can end with holds of the one that it has ended
with. -/
theorem Reads.forall_last {good : Char → Prop} {p : Pattern} {before word rest : List Char}
    {groups : Captures} (h : p.Reads before word rest groups) (hp : p.LastReads good) :
    ∀ c ∈ word.getLast?, good c := by
  induction p generalizing before word rest groups with
  | empty => simp [h.1]
  | one accepts =>
    obtain ⟨x, hx, rfl, -⟩ := h
    intro c hc
    obtain rfl := Option.some.inj hc
    exact hp x hx
  | seq first second ih₁ ih₂ =>
    obtain ⟨front, back, early, late, rfl, -, hfront, hback⟩ := h
    obtain ⟨hsecond, hfirst⟩ := hp
    by_cases hempty : back = []
    · -- only a second part that has to read something hides the first one
      rcases hfirst with hconsumes | hfirst
      · exact absurd hempty (hback.ne_nil hconsumes)
      · rw [hempty, List.append_nil]
        exact ih₁ hfront hfirst
    · rw [List.getLast?_append_of_ne_nil _ hempty]
      exact ih₂ hback hsecond
  | alt left right ih₁ ih₂ => exact h.elim (ih₁ · hp.1) (ih₂ · hp.2)
  | repeated lazy body ih =>
    rw [Reads] at h
    induction h with
    | done => simp
    | @more _ round word _ _ _ hround hstep _ ihmore =>
      by_cases hempty : word = []
      · rw [hempty, List.append_nil]
        exact ih hstep hp
      · rw [List.getLast?_append_of_ne_nil _ hempty]
        exact ihmore
  | group name body ih =>
    obtain ⟨inner, -, hword⟩ := h
    exact ih hword hp
  | assertion condition => simp [h.1]

/-- What holds of all characters that a pattern can read holds of those it can end with. -/
theorem OnlyReads.lastReads {good : Char → Prop} {p : Pattern} (h : p.OnlyReads good) :
    p.LastReads good := by
  induction p with
  | empty => trivial
  | one accepts => exact h
  | seq first second ih₁ ih₂ => exact ⟨ih₂ h.2, Or.inr (ih₁ h.1)⟩
  | alt left right ih₁ ih₂ => exact ⟨ih₁ h.1, ih₂ h.2⟩
  | repeated lazy body ih => exact ih h
  | group name body ih => exact ih h
  | assertion condition => trivial

/-- What holds of all characters that a pattern can read holds of those it can begin with. -/
theorem OnlyReads.firstReads {good : Char → Prop} {p : Pattern} (h : p.OnlyReads good) :
    p.FirstReads good := by
  induction p with
  | empty => trivial
  | one accepts => exact h
  | seq first second ih₁ ih₂ => exact ⟨ih₁ h.1, Or.inr (ih₂ h.2)⟩
  | alt left right ih₁ ih₂ => exact ⟨ih₁ h.1, ih₂ h.2⟩
  | repeated lazy body ih => exact ih h
  | group name body ih => exact ih h
  | assertion condition => trivial

/-- What a group captures has been read. -/
theorem Reads.mem_of_mem_groups {p : Pattern} {before word rest : List Char} {groups : Captures}
    (h : p.Reads before word rest groups) : ∀ g ∈ groups, ∀ c ∈ g.2, c ∈ word := by
  induction p generalizing before word rest groups with
  | empty => simp [h.2]
  | one accepts =>
    obtain ⟨x, -, -, rfl⟩ := h
    simp
  | seq first second ih₁ ih₂ =>
    obtain ⟨front, back, early, late, rfl, rfl, hfront, hback⟩ := h
    intro g hg c hc
    rcases List.mem_append.mp hg with hg | hg
    · exact List.mem_append_right front (ih₂ hback g hg c hc)
    · exact List.mem_append_left back (ih₁ hfront g hg c hc)
  | alt left right ih₁ ih₂ => exact h.elim ih₁ ih₂
  | repeated lazy body ih =>
    rw [Reads] at h
    induction h with
    | done => simp
    | @more before round word rest groups later hround hstep hmore ihmore =>
      intro g hg c hc
      rcases List.mem_append.mp hg with hg | hg
      · exact List.mem_append_right round (ihmore g hg c hc)
      · exact List.mem_append_left word (ih hstep g hg c hc)
  | group name body ih =>
    obtain ⟨inner, rfl, hword⟩ := h
    intro g hg c hc
    rcases List.mem_cons.mp hg with rfl | hg
    · exact hc
    · exact ih hword g hg c hc
  | assertion condition => simp [h.2.1]

/-- A pattern captures no groups but its own. -/
theorem Reads.mem_groupNames {p : Pattern} {before word rest : List Char} {groups : Captures}
    (h : p.Reads before word rest groups) : ∀ g ∈ groups, g.1 ∈ p.groupNames := by
  induction p generalizing before word rest groups with
  | empty => simp [h.2]
  | one accepts =>
    obtain ⟨x, -, -, rfl⟩ := h
    simp
  | seq first second ih₁ ih₂ =>
    obtain ⟨front, back, early, late, -, rfl, hfront, hback⟩ := h
    intro g hg
    rw [groupNames, List.mem_append]
    exact (List.mem_append.mp hg).elim (fun h => Or.inr (ih₂ hback g h))
      (fun h => Or.inl (ih₁ hfront g h))
  | alt left right ih₁ ih₂ =>
    intro g hg
    rw [groupNames, List.mem_append]
    exact h.elim (fun h => Or.inl (ih₁ h g hg)) (fun h => Or.inr (ih₂ h g hg))
  | repeated lazy body ih =>
    rw [Reads] at h
    induction h with
    | done => simp
    | more hround hstep hmore ihmore =>
      intro g hg
      exact (List.mem_append.mp hg).elim (ihmore g) (ih hstep g)
  | group name body ih =>
    obtain ⟨inner, rfl, hword⟩ := h
    intro g hg
    rw [groupNames, List.mem_cons]
    exact (List.mem_cons.mp hg).imp (congrArg Prod.fst) (ih hword g)
  | assertion condition => simp [h.2.1]

/-- A pattern without groups captures nothing. -/
theorem Reads.groups_eq_nil {p : Pattern} {before word rest : List Char} {groups : Captures}
    (h : p.Reads before word rest groups) (hp : p.groupNames = []) : groups = [] :=
  List.eq_nil_iff_forall_not_mem.mpr fun g hg => by
    simpa [hp] using h.mem_groupNames g hg

/-! ## The ways to write patterns -/

section Derived

variable {good : Char → Prop} {before word rest : List Char} {groups : Captures}

@[simp] theorem onlyReads_lineStart : OnlyReads good lineStart := trivial

@[simp] theorem onlyReads_lineEnd : OnlyReads good lineEnd := trivial

@[simp] theorem onlyReads_sequence {parts : List Pattern} :
    OnlyReads good (sequence parts) ↔ ∀ p ∈ parts, OnlyReads good p := by
  induction parts with
  | nil => simp [sequence, OnlyReads]
  | cons p more ih =>
    rw [List.forall_mem_cons, ← ih]
    rfl

@[simp] theorem onlyReads_choice {branches : List Pattern} :
    OnlyReads good (choice branches) ↔ ∀ p ∈ branches, OnlyReads good p := by
  fun_induction choice branches with
  | case1 => simp [OnlyReads]
  | case2 p => simp
  | case3 p more _ ih =>
    rw [List.forall_mem_cons, ← ih]
    rfl

@[simp] theorem onlyReads_optional {p : Pattern} :
    OnlyReads good (optional p) ↔ OnlyReads good p := by
  simp [optional, OnlyReads]

@[simp] theorem onlyReads_oneOrMore {p : Pattern} :
    OnlyReads good (oneOrMore p) ↔ OnlyReads good p := by
  simp [oneOrMore, OnlyReads]

@[simp] theorem onlyReads_oneOf {members : String} :
    OnlyReads good (oneOf members) ↔ ∀ c ∈ members.toList, good c := by
  simp [oneOf, OnlyReads]

@[simp] theorem onlyReads_lit {text : String} :
    OnlyReads good (lit text) ↔ ∀ c ∈ text.toList, good c := by
  rw [lit, literal]
  induction text.toList with
  | nil => simp [OnlyReads]
  | cons c more ih => simp [OnlyReads, ih]

@[simp] theorem onlyReads_blanks : OnlyReads good blanks ↔ good ' ' ∧ good '\t' := by
  show OnlyReads good (oneOf " \t") ↔ _
  simp

@[simp] theorem onlyReads_gap : OnlyReads good gap ↔ good ' ' ∧ good '\t' := by
  simp [gap]

/-- A literal text reads itself. -/
theorem reads_lit {text : String} :
    (lit text).Reads before word rest groups ↔ word = text.toList ∧ groups = [] := by
  rw [lit, literal]
  induction text.toList generalizing before word groups with
  | nil => rfl
  | cons c more ih =>
    constructor
    · rintro ⟨_, back, _, late, rfl, rfl, ⟨x, hx, rfl, rfl⟩, hback⟩
      obtain ⟨rfl, rfl⟩ := ih.mp hback
      exact ⟨by rw [eq_of_beq hx]; rfl, rfl⟩
    · rintro ⟨rfl, rfl⟩
      exact ⟨[c], more, [], [], rfl, rfl, ⟨c, beq_self_eq_true c, rfl, rfl⟩, ih.mpr ⟨rfl, rfl⟩⟩

/-- What stands behind an assertion reads the whole word. -/
theorem Reads.of_assertion {condition : Assertion} {p : Pattern}
    (h : (seq (assertion condition) p).Reads before word rest groups) :
    p.Reads before word rest groups := by
  obtain ⟨_, back, _, late, rfl, rfl, ⟨rfl, rfl, -⟩, hback⟩ := h
  rw [List.append_nil]
  exact hback

/-- An assertion in front of a pattern holds where the word begins. -/
theorem Reads.holds_of_assertion {condition : Assertion} {p : Pattern}
    (h : (seq (assertion condition) p).Reads before word rest groups) :
    condition.holds before (word ++ rest) = true := by
  obtain ⟨_, back, _, late, rfl, rfl, ⟨rfl, rfl, hholds⟩, -⟩ := h
  exact hholds

/-- Two patterns one after the other read the words of both. -/
theorem reads_seq {p q : Pattern} {front back : List Char} {early late : Captures}
    (hfront : p.Reads before front (back ++ rest) early)
    (hback : q.Reads (front.reverse ++ before) back rest late) :
    (seq p q).Reads before (front ++ back) rest (late ++ early) :=
  ⟨front, back, early, late, rfl, rfl, hfront, hback⟩

theorem reads_seq_nil {p q : Pattern} {front back : List Char}
    (hfront : p.Reads before front (back ++ rest) [])
    (hback : q.Reads (front.reverse ++ before) back rest []) :
    (seq p q).Reads before (front ++ back) rest [] :=
  reads_seq hfront hback

/-- A literal text in front of a pattern leaves the captures to it. -/
theorem reads_lit_seq {text : String} {q : Pattern} {back : List Char}
    (hback : q.Reads (text.toList.reverse ++ before) back rest groups) :
    (seq (lit text) q).Reads before (text.toList ++ back) rest groups := by
  simpa using reads_seq (reads_lit.mpr ⟨rfl, rfl⟩) hback

/-- A group in front of a pattern adds its capture. -/
theorem reads_group_seq {name : String} {body q : Pattern} {front back : List Char}
    {late : Captures} (hfront : body.Reads before front (back ++ rest) [])
    (hback : q.Reads (front.reverse ++ before) back rest late) :
    (seq (group name body) q).Reads before (front ++ back) rest (late ++ [(name, front)]) :=
  reads_seq ⟨[], rfl, hfront⟩ hback

/-- A run of characters of a class is read without captures. -/
theorem reads_many {accepts : Char → Bool} (h : ∀ c ∈ word, accepts c = true) :
    (many (one accepts)).Reads before word rest [] := by
  induction word generalizing before with
  | nil => exact Rounds.done before rest
  | cons c more ih =>
    obtain ⟨hc, hmore⟩ := List.forall_mem_cons.mp h
    exact Rounds.more (List.cons_ne_nil c []) ⟨c, hc, rfl, rfl⟩ (ih hmore)

theorem reads_many_one_iff {accepts : Char → Bool} :
    (many (one accepts)).Reads before word rest groups ↔
      (∀ c ∈ word, accepts c = true) ∧ groups = [] := by
  constructor
  · exact fun h => ⟨h.forall_mem fun _ hc => hc, h.groups_eq_nil rfl⟩
  · rintro ⟨hword, rfl⟩
    exact reads_many hword

/-- What is read in some rounds is read in at least one. -/
theorem Reads.oneOrMore {p : Pattern} (h : (many p).Reads before word rest groups)
    (hne : word ≠ []) : (oneOrMore p).Reads before word rest groups := by
  rw [Reads] at h
  cases h with
  | done => exact absurd rfl hne
  | more hround hstep hmore => exact reads_seq hstep hmore

theorem reads_oneOrMore_one_iff {accepts : Char → Bool} :
    (oneOrMore (one accepts)).Reads before word rest groups ↔
      word ≠ [] ∧ (∀ c ∈ word, accepts c = true) ∧ groups = [] := by
  constructor
  · exact fun h => ⟨h.ne_nil rfl, h.forall_mem ⟨fun _ hc => hc, fun _ hc => hc⟩,
      h.groups_eq_nil rfl⟩
  · rintro ⟨hne, hword, rfl⟩
    exact (reads_many hword).oneOrMore hne

/-- A pattern without groups in front of another leaves the groups to it. -/
theorem Reads.seq_of_groupNames {p q : Pattern} (h : (seq p q).Reads before word rest groups)
    (hp : p.groupNames = []) :
    ∃ front back, word = front ++ back ∧ p.Reads before front (back ++ rest) [] ∧
      q.Reads (front.reverse ++ before) back rest groups := by
  obtain ⟨front, back, early, late, rfl, rfl, hfront, hback⟩ := h
  obtain rfl := hfront.groups_eq_nil hp
  rw [List.append_nil]
  exact ⟨front, back, rfl, hfront, hback⟩

/-- A group in front of a pattern that has no group of its name reads a first part of the word and
captures it. -/
theorem Reads.group_seq {name : String} {body p : Pattern}
    (h : (seq (group name body) p).Reads before word rest groups) (hbody : body.groupNames = [])
    (hp : name ∉ p.groupNames) :
    ∃ front back late, word = front ++ back ∧ groups = late ++ [(name, front)] ∧
      late.lookup name = none ∧ body.Reads before front (back ++ rest) [] ∧
      p.Reads (front.reverse ++ before) back rest late := by
  obtain ⟨front, back, _, late, rfl, rfl, ⟨inner, rfl, hfront⟩, hback⟩ := h
  obtain rfl := hfront.groups_eq_nil hbody
  refine ⟨front, back, late, rfl, rfl, ?_, hfront, hback⟩
  refine List.lookup_eq_none_iff.mpr fun g hg => ?_
  have hne : name ≠ g.1 := fun heq => hp (heq ▸ hback.mem_groupNames g hg)
  simpa using hne

end Derived

end Pattern

end SourceRepair
