import SourceRepair.Text.Basic

/-!
# Text patterns

A pattern describes stretches of text. `Pattern.ends` gives the meaning: from a place in a text, the
list of places where a match of the pattern may end, the preferred one first. An alternative prefers
its left branch; a repetition prefers one more round, or to stop if it is a lazy one. So the first
element is the match that a reader of the pattern expects. Patterns see what lies before the place
they start at, which is what the assertions look at.
-/

namespace SourceRepair

/-- A place in a text: what lies before it, nearest character first, and what lies after it,
together with the groups captured on the way, latest first. -/
structure Cursor where
  before : List Char
  rest : List Char
  groups : List (String × List Char)
  deriving DecidableEq, Repr, Inhabited

namespace Cursor

/-- The text between a place and a later place. -/
def upTo (c later : Cursor) : List Char :=
  c.rest.take (c.rest.length - later.rest.length)

/-- Records what was read since `origin` as the group `name`. -/
def capture (c : Cursor) (name : String) (origin : Cursor) : Cursor :=
  { c with groups := (name, origin.upTo c) :: c.groups }

end Cursor

/-- A condition on the characters on both sides of a place. -/
inductive Assertion where
  | textStart
  | textEnd
  /-- The start of the text, or directly after a line terminator. -/
  | lineStart
  /-- The end of the text, or directly before a line terminator. -/
  | lineEnd
  /-- A word character on exactly one side. -/
  | wordBoundary
  deriving DecidableEq, Repr

/-- Whether an assertion holds between `before`, nearest character first, and `rest`. Lines end in
a line feed, a carriage return, or the two together, between which no line starts or ends. -/
def Assertion.holds (before rest : List Char) : Assertion → Bool
  | .textStart => before.isEmpty
  | .textEnd => rest.isEmpty
  | .lineStart =>
    match before with
    | [] => true
    | c :: _ => c == '\n' || (c == '\r' && rest.head? != some '\n')
  | .lineEnd =>
    match rest with
    | [] => true
    | c :: _ => c == '\r' || (c == '\n' && before.head? != some '\r')
  | .wordBoundary => before.head?.any CharClass.isWord != rest.head?.any CharClass.isWord

/-- A pattern over characters. -/
inductive Pattern where
  /-- Matches the empty text. -/
  | empty
  /-- Matches one character of a class. -/
  | one (accepts : Char → Bool)
  | seq (first second : Pattern)
  /-- Matches either branch and prefers the left one. -/
  | alt (left right : Pattern)
  /-- Matches any number of rounds, each of at least one character; prefers fewer if it is lazy, and
  more if not. -/
  | repeated (lazy : Bool) (body : Pattern)
  /-- Matches `body` and keeps what it matched under a name. -/
  | group (name : String) (body : Pattern)
  | assertion (condition : Assertion)

namespace Pattern

/-- Any number of rounds, and rather more. -/
@[match_pattern] abbrev many (body : Pattern) : Pattern := repeated false body

/-- Any number of rounds, and rather fewer. -/
@[match_pattern] abbrev few (body : Pattern) : Pattern := repeated true body

/-- The place `c` where a repetition has got to, beside the ends `more` that going on leads to. -/
def stopOr (lazy : Bool) (c : Cursor) (more : List Cursor) : List Cursor :=
  if lazy then c :: more else more ++ [c]

/-- The ends of any number of rounds of `step`, in the order of preference; a round that reads
nothing ends the run. -/
def rounds (lazy : Bool) (step : Cursor → List Cursor) (c : Cursor) : List Cursor :=
  stopOr lazy c <| (step c).flatMap fun d =>
    if _ : d.rest.length < c.rest.length then rounds lazy step d else []
termination_by c.rest.length

/-- The places where a match from `c` may end, the preferred one first. -/
def ends : Pattern → Cursor → List Cursor
  | .empty, c => [c]
  | .one accepts, c =>
    match c.rest with
    | [] => []
    | x :: r => if accepts x then [⟨x :: c.before, r, c.groups⟩] else []
  | .seq first second, c => (ends first c).flatMap (ends second)
  | .alt left right, c => ends left c ++ ends right c
  | .repeated lazy body, c => rounds lazy (ends body) c
  | .group name body, c => (ends body c).map (·.capture name c)
  | .assertion condition, c => if condition.holds c.before c.rest then [c] else []

/-! ## Reading forward

No end lies before the start. -/

@[simp] theorem stopOr_false (c : Cursor) (more : List Cursor) :
    stopOr false c more = more ++ [c] := rfl

@[simp] theorem stopOr_true (c : Cursor) (more : List Cursor) :
    stopOr true c more = c :: more := rfl

@[simp] theorem mem_stopOr {lazy : Bool} {c d : Cursor} {more : List Cursor} :
    d ∈ stopOr lazy c more ↔ d ∈ more ∨ d = c := by
  cases lazy <;> simp [stopOr, or_comm]

/-- Repeating a step never goes back. -/
theorem rounds_length_le {lazy : Bool} {step : Cursor → List Cursor} (c : Cursor) :
    ∀ d ∈ rounds lazy step c, d.rest.length ≤ c.rest.length := by
  induction hn : c.rest.length using Nat.strongRecOn generalizing c with
  | _ n ih =>
    subst hn
    intro d hd
    rw [rounds] at hd
    rw [mem_stopOr, List.mem_flatMap] at hd
    rcases hd with ⟨m, _, hm⟩ | rfl
    · split at hm
      · rename_i hlt
        exact Nat.le_trans (ih _ hlt m rfl d hm) (Nat.le_of_lt hlt)
      · simp at hm
    · exact Nat.le_refl _

/-- A match never goes back. -/
theorem ends_length_le (p : Pattern) (c : Cursor) :
    ∀ d ∈ ends p c, d.rest.length ≤ c.rest.length := by
  induction p generalizing c with
  | empty => simp [ends]
  | one accepts =>
    intro d hd
    unfold ends at hd
    split at hd
    · simp at hd
    · rename_i x r hr
      split at hd
      · simp only [List.mem_singleton] at hd
        subst hd
        simp [hr]
      · simp at hd
  | seq first second ih₁ ih₂ =>
    intro d hd
    rw [ends, List.mem_flatMap] at hd
    obtain ⟨m, hm, hd⟩ := hd
    exact Nat.le_trans (ih₂ m d hd) (ih₁ c m hm)
  | alt left right ih₁ ih₂ =>
    intro d hd
    rw [ends, List.mem_append] at hd
    exact hd.elim (ih₁ c d) (ih₂ c d)
  | repeated lazy body _ => exact rounds_length_le c
  | group name body ih =>
    intro d hd
    rw [ends, List.mem_map] at hd
    obtain ⟨m, hm, rfl⟩ := hd
    exact ih c m hm
  | assertion condition =>
    intro d hd
    unfold ends at hd
    split at hd <;> simp_all

/-! ## Ways to write patterns -/

/-- The given characters, one after another. -/
def literal (text : List Char) : Pattern :=
  text.foldr (fun c rest => seq (one (· == c)) rest) empty

/-- The given text. -/
def lit (text : String) : Pattern :=
  literal text.toList

/-- The patterns one after another. -/
def sequence (parts : List Pattern) : Pattern :=
  parts.foldr seq empty

/-- One of the patterns, the earlier ones preferred; none of them is left out. -/
def choice : List Pattern → Pattern
  | [] => one fun _ => false
  | [p] => p
  | p :: more => alt p (choice more)

/-- The pattern or nothing, and rather the pattern. -/
def optional (p : Pattern) : Pattern :=
  alt p empty

/-- At least one round. -/
def oneOrMore (p : Pattern) : Pattern :=
  seq p (many p)

/-- One of the characters of `members`. -/
def oneOf (members : String) : Pattern :=
  one members.toList.contains

/-- Any character that is not in `members`. -/
def noneOf (members : String) : Pattern :=
  one fun c => !members.toList.contains c

/-- Any run of spaces and tabs. -/
def blanks : Pattern :=
  many (oneOf " \t")

/-- At least one space or tab. -/
def gap : Pattern :=
  oneOrMore (oneOf " \t")

/-- Any character that does not end a line. -/
def inLine : Pattern :=
  noneOf "\r\n"

/-- A character that is not white space. -/
def visible : Pattern :=
  one fun c => !CharClass.isWhite c

/-- A character of a name: a word character or a dollar sign. -/
def nameChar : Pattern :=
  one fun c => CharClass.isWord c || c == '$'

/-- The start of a line. -/
def lineStart : Pattern := assertion .lineStart

/-- The end of a line. -/
def lineEnd : Pattern := assertion .lineEnd

/-- The start of the text. -/
def textStart : Pattern := assertion .textStart

/-- The end of the text. -/
def textEnd : Pattern := assertion .textEnd

/-- A place with a word character on one side only. -/
def wordBoundary : Pattern := assertion .wordBoundary

end Pattern

end SourceRepair
