import SourceRepair.Pattern.First

/-!
# Searching a text for a pattern

`Pattern.allMatches` lists the matches of a pattern in a text from left to right. Each search goes
on where the last match ended, and takes the first place from which the pattern matches at all. An
empty match directly at the end of the match before it does not count: the search then goes on one
character further.
-/

namespace SourceRepair

/-- A match: the text before it, nearest character first, its own text, the text after it, and the
groups captured, latest first. -/
structure Match where
  before : List Char
  text : List Char
  after : List Char
  groups : List (String × List Char)
  deriving DecidableEq, Repr, Inhabited

namespace Match

/-- The byte offset where the match starts. -/
def start (m : Match) : Nat :=
  Text.utf8Size m.before

/-- The byte offset where the match stops. -/
def stop (m : Match) : Nat :=
  m.start + Text.utf8Size m.text

/-- What the group `name` matched, if it took part in the match. -/
def group? (m : Match) (name : String) : Option (List Char) :=
  m.groups.lookup name

/-- What the group `name` matched, and nothing if it took no part. -/
def group (m : Match) (name : String) : List Char :=
  (m.group? name).getD []

/-- The match that reads from one place to a later one. -/
def between (origin stop : Cursor) : Match :=
  ⟨origin.before, origin.upTo stop, stop.rest, stop.groups⟩

/-- The place where the match ends, with nothing captured. -/
def endCursor (m : Match) : Cursor :=
  ⟨m.text.reverse ++ m.before, m.after, []⟩

end Match

namespace Pattern

/-- The preferred match that starts exactly at `c`. -/
def matchAt? (p : Pattern) (c : Cursor) : Option Match :=
  p.first? { c with groups := [] } fun stop => some (Match.between c stop)

/-- The preferred match is the one with the first of all ends. -/
theorem matchAt?_eq (p : Pattern) (c : Cursor) :
    p.matchAt? c = (p.ends { c with groups := [] }).head?.map (Match.between c) := by
  rw [matchAt?, first?_eq]
  cases p.ends { c with groups := [] } <;> rfl

/-- The first match at or after a place given by the texts on its two sides. -/
def findFrom (p : Pattern) (before : List Char) : List Char → Option Match
  | [] => p.matchAt? ⟨before, [], []⟩
  | x :: rest =>
    match p.matchAt? ⟨before, x :: rest, []⟩ with
    | some m => some m
    | none => findFrom p (x :: before) rest

/-- What follows a match, with the match, makes up the text it was found in. -/
theorem matchAt?_after_length_le {p : Pattern} {c : Cursor} {m : Match}
    (h : p.matchAt? c = some m) :
    m.after.length ≤ c.rest.length ∧ m.text.length = c.rest.length - m.after.length := by
  rw [matchAt?_eq, Option.map_eq_some_iff] at h
  obtain ⟨d, hd, rfl⟩ := h
  have := ends_length_le p _ d (List.mem_of_head? hd)
  simp only [Match.between, Cursor.upTo, List.length_take] at this ⊢
  omega

/-- A match found lies wholly in the text searched. -/
theorem findFrom_length_le {p : Pattern} {before rest : List Char} {m : Match}
    (h : p.findFrom before rest = some m) :
    m.text.length + m.after.length ≤ rest.length := by
  induction rest generalizing before with
  | nil =>
    have := matchAt?_after_length_le h
    simp only [List.length_nil] at this
    omega
  | cons x rest ih =>
    unfold findFrom at h
    split at h
    · rename_i m' hm
      obtain rfl := Option.some.inj h
      have := matchAt?_after_length_le hm
      simp only [List.length_cons] at this ⊢
      omega
    · have := ih h
      simp only [List.length_cons]
      omega

/-- The matches from a place on. With `barred`, an empty match at that very place does not count. -/
def matchesFrom (p : Pattern) (barred : Bool) (before rest : List Char) : List Match :=
  match _h : p.findFrom before rest with
  | none => []
  | some m =>
    if _hb : barred = true ∧ m.text = [] ∧ m.after.length = rest.length then
      match rest with
      | [] => []
      | x :: rest => matchesFrom p false (x :: before) rest
    else m :: matchesFrom p true m.endCursor.before m.after
termination_by (rest.length, if barred then 0 else 1)
decreasing_by
  · exact Prod.Lex.left _ _ (by simp)
  · have hle := findFrom_length_le _h
    by_cases hlt : m.after.length < rest.length
    · exact Prod.Lex.left _ _ hlt
    · have heq : m.after.length = rest.length := by omega
      have htext : m.text = [] := List.eq_nil_of_length_eq_zero (by omega)
      have : barred = false := by
        cases barred
        · rfl
        · exact absurd ⟨rfl, htext, heq⟩ _hb
      subst this
      rw [heq]
      exact Prod.Lex.right _ (by simp)

/-- The matches of a pattern in a text, from left to right. -/
def allMatches (p : Pattern) (text : List Char) : List Match :=
  p.matchesFrom false [] text

/-- Whether a pattern matches anywhere in a text. -/
def occursIn (p : Pattern) (text : List Char) : Bool :=
  (p.findFrom [] text).isSome

end Pattern

end SourceRepair
