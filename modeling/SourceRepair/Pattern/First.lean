import SourceRepair.Pattern.Basic

/-!
# The first end of a match

`Pattern.ends` lists every place where a match may end. A search only wants the first one that what
follows agrees with, and `Pattern.first?` finds it without listing the others. `first?_eq` says that
the two agree.
-/

namespace SourceRepair.Pattern

variable {α : Type}

/-- The first result of stopping and of going on; a lazy repetition stops first. -/
@[macro_inline] def firstOfStop (lazy : Bool) (stop more : Option α) : Option α :=
  if lazy then stop.or more else more.or stop

/-- The first result of `k` at the ends of a run of characters of a class. -/
def firstOfRun (lazy : Bool) (accepts : Char → Bool) (groups : List (String × List Char))
    (k : Cursor → Option α) (before : List Char) : List Char → Option α
  | [] => k ⟨before, [], groups⟩
  | x :: rest =>
    if accepts x then
      firstOfStop lazy (k ⟨before, x :: rest, groups⟩)
        (firstOfRun lazy accepts groups k (x :: before) rest)
    else k ⟨before, x :: rest, groups⟩

/-- Whether a pattern surely reads at least one character. -/
def consumes : Pattern → Bool
  | .empty => false
  | .one _ => true
  | .seq first second => first.consumes || second.consumes
  | .alt left right => left.consumes && right.consumes
  | .repeated _ _ => false
  | .group _ body => body.consumes
  | .assertion _ => false

/-- The first result of `k` at the ends of at most `fuel` rounds that each read something; `step`
gives the first result at the ends of one round. -/
def firstOfSteps (lazy : Bool) (step : Cursor → (Cursor → Option α) → Option α)
    (k : Cursor → Option α) : Nat → Cursor → Option α
  | 0, c => k c
  | fuel + 1, c => firstOfStop lazy (k c) (step c (firstOfSteps lazy step k fuel))

/-- The first result of `k` at the ends of rounds; `step` gives the first result at the ends of one
round. -/
def firstOfRounds (lazy : Bool) (step : Cursor → (Cursor → Option α) → Option α)
    (k : Cursor → Option α) (c : Cursor) : Option α :=
  firstOfStop lazy (k c) <| step c fun d =>
    if _ : d.rest.length < c.rest.length then firstOfRounds lazy step k d else none
termination_by c.rest.length

/-- The first result of `k` at the ends of a match, the preferred one first. -/
def first? : Pattern → Cursor → (Cursor → Option α) → Option α
  | .empty, c, k => k c
  | .one accepts, c, k =>
    match c.rest with
    | [] => none
    | x :: rest => if accepts x then k ⟨x :: c.before, rest, c.groups⟩ else none
  | .seq first second, c, k => first? first c fun d => first? second d k
  | .alt left right, c, k =>
    match first? left c k with
    | some a => some a
    | none => first? right c k
  | .repeated lazy (.one accepts), c, k => firstOfRun lazy accepts c.groups k c.before c.rest
  | .repeated lazy body, c, k =>
    if body.consumes then firstOfSteps lazy (first? body) k c.rest.length c
    else firstOfRounds lazy (first? body) k c
  | .group name body, c, k => first? body c fun d => k (d.capture name c)
  | .assertion condition, c, k => if condition.holds c.before c.rest then k c else none

/-! ## The first result is that of the listed ends -/

/-- The first result over a list of lists is found list by list. -/
theorem findSome?_ends_flatMap {β γ : Type} (l : List β) (f : β → List γ) (k : γ → Option α) :
    (l.flatMap f).findSome? k = l.findSome? fun b => (f b).findSome? k := by
  induction l with
  | nil => rfl
  | cons b l ih =>
    simp only [List.flatMap_cons, List.findSome?_append, ih, List.findSome?_cons]
    cases (f b).findSome? k <;> simp

theorem findSome?_stopOr (lazy : Bool) (c : Cursor) (more : List Cursor) (k : Cursor → Option α) :
    (stopOr lazy c more).findSome? k = firstOfStop lazy (k c) (more.findSome? k) := by
  cases lazy with
  | false => simp [stopOr, firstOfStop, List.findSome?_append]
  | true =>
    rw [stopOr, if_pos rfl, List.findSome?_cons, firstOfStop, if_pos rfl]
    cases k c <;> rfl

@[simp] theorem firstOfStop_none (lazy : Bool) (stop : Option α) :
    firstOfStop lazy stop none = stop := by
  cases lazy <;> simp [firstOfStop]

/-- The first result depends on the elements of the list alone. -/
theorem findSome?_congr_of_mem {β : Type} {l : List β} {f g : β → Option α}
    (h : ∀ b ∈ l, f b = g b) : l.findSome? f = l.findSome? g := by
  induction l with
  | nil => rfl
  | cons b l ih =>
    rw [List.findSome?_cons, List.findSome?_cons, h b List.mem_cons_self,
      ih fun e he => h e (List.mem_cons_of_mem b he)]

/-- A run of characters gives the first result of its rounds. -/
theorem firstOfRun_eq (lazy : Bool) (accepts : Char → Bool) (groups : List (String × List Char))
    (k : Cursor → Option α) (before rest : List Char) :
    firstOfRun lazy accepts groups k before rest
      = (rounds lazy (ends (.one accepts)) ⟨before, rest, groups⟩).findSome? k := by
  induction rest generalizing before with
  | nil => rw [rounds, findSome?_stopOr]; simp [firstOfRun, ends]
  | cons x rest ih =>
    rw [rounds, findSome?_stopOr]
    by_cases h : accepts x
    · simp [firstOfRun, ends, h, ih]
    · simp [firstOfRun, ends, h]

/-- Rounds that are explored as needed give the first result of the listed rounds. -/
theorem firstOfRounds_eq (lazy : Bool) (step : Cursor → (Cursor → Option α) → Option α)
    (ends : Cursor → List Cursor)
    (hstep : ∀ c k, step c k = (ends c).findSome? k) (k : Cursor → Option α) (c : Cursor) :
    firstOfRounds lazy step k c = (rounds lazy ends c).findSome? k := by
  induction hn : c.rest.length using Nat.strongRecOn generalizing c with
  | _ n ih =>
    subst hn
    rw [firstOfRounds, rounds, findSome?_stopOr, findSome?_ends_flatMap, hstep]
    congr 2
    funext d
    split
    · exact ih _ ‹_› d rfl
    · rfl

/-- A pattern that is said to read something does. -/
theorem ends_length_lt {p : Pattern} (hp : p.consumes = true) (c : Cursor) :
    ∀ d ∈ ends p c, d.rest.length < c.rest.length := by
  induction p generalizing c with
  | empty => simp [consumes] at hp
  | one accepts =>
    intro d hd
    unfold ends at hd
    split at hd
    · simp at hd
    · rename_i x rest hr
      split at hd
      · simp only [List.mem_singleton] at hd
        subst hd
        simp [hr]
      · simp at hd
  | seq first second ih₁ ih₂ =>
    intro d hd
    rw [ends, List.mem_flatMap] at hd
    obtain ⟨m, hm, hd⟩ := hd
    rw [consumes, Bool.or_eq_true] at hp
    rcases hp with hp | hp
    · exact Nat.lt_of_le_of_lt (ends_length_le second m d hd) (ih₁ hp c m hm)
    · exact Nat.lt_of_lt_of_le (ih₂ hp m d hd) (ends_length_le first c m hm)
  | alt left right ih₁ ih₂ =>
    intro d hd
    rw [ends, List.mem_append] at hd
    rw [consumes, Bool.and_eq_true] at hp
    exact hd.elim (ih₁ hp.1 c d) (ih₂ hp.2 c d)
  | repeated lazy body _ => simp [consumes] at hp
  | group name body ih =>
    intro d hd
    rw [ends, List.mem_map] at hd
    obtain ⟨m, hm, rfl⟩ := hd
    exact ih hp c m hm
  | assertion condition => simp [consumes] at hp

/-- Steps that always move on give the first result of the listed rounds. -/
theorem firstOfSteps_eq (lazy : Bool) (step : Cursor → (Cursor → Option α) → Option α)
    (ends : Cursor → List Cursor)
    (hstep : ∀ c k, step c k = (ends c).findSome? k)
    (hlt : ∀ c, ∀ d ∈ ends c, d.rest.length < c.rest.length) (k : Cursor → Option α)
    (fuel : Nat) (c : Cursor) (hfuel : c.rest.length ≤ fuel) :
    firstOfSteps lazy step k fuel c = (rounds lazy ends c).findSome? k := by
  induction fuel generalizing c with
  | zero =>
    have hnil : ends c = [] := by
      cases he : ends c with
      | nil => rfl
      | cons d more =>
        have := hlt c d (by simp [he])
        omega
    rw [firstOfSteps, rounds, findSome?_stopOr, hnil]
    simp
  | succ fuel ih =>
    rw [firstOfSteps, rounds, findSome?_stopOr, findSome?_ends_flatMap, hstep]
    congr 1
    refine findSome?_congr_of_mem fun d hd => ?_
    have hshorter := hlt c d hd
    rw [dif_pos hshorter]
    exact ih d (by omega)

/-- Looking for the first result gives the same as listing all ends. -/
theorem first?_eq (p : Pattern) (c : Cursor) (k : Cursor → Option α) :
    p.first? c k = (p.ends c).findSome? k := by
  induction p generalizing c k with
  | empty => simp [first?, ends]
  | one accepts =>
    rw [first?, ends]
    cases c.rest with
    | nil => rfl
    | cons x rest => by_cases h : accepts x <;> simp [h]
  | seq first second ih₁ ih₂ => simp only [first?, ends, ih₁, ih₂, findSome?_ends_flatMap]
  | alt left right ih₁ ih₂ =>
    rw [first?, ends, List.findSome?_append, ih₁, ih₂]
    cases (left.ends c).findSome? k <;> rfl
  | repeated lazy body ih =>
    by_cases h : ∃ accepts, body = .one accepts
    · obtain ⟨accepts, rfl⟩ := h
      rw [first?, ends, firstOfRun_eq]
    · rw [first?, ends]
      · split
        · rename_i hb
          exact firstOfSteps_eq lazy _ _ ih (ends_length_lt hb) k _ c (Nat.le_refl _)
        · exact firstOfRounds_eq lazy _ _ ih k c
      · exact fun accepts hb => h ⟨accepts, hb⟩
  | group name body ih => simp [first?, ends, ih, List.findSome?_map, Function.comp_def]
  | assertion condition =>
    rw [first?, ends]
    split <;> simp

end SourceRepair.Pattern
