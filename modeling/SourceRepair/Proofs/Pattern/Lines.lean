import SourceRepair.Proofs.Pattern.Surroundings
import SourceRepair.Proofs.Text.Lines

/-!
# Searching a text line by line

A pattern that reads neither a line feed nor, at its end, a carriage return has its matches within
single lines, and sees no more of the other lines than that a line starts or ends. So it finds in a
text what it finds in each line searched on its own: `allMatches_render`.

Inside a match the pattern may well look behind the end of a line, because it may read the carriage
return of a terminator before it turns out that there is no match. So the ends of parts of the
pattern are known as far as they lie in the line (`filter_ends_within`), and only those of the whole
pattern all do.
-/

namespace SourceRepair

/-! ## A line in a text -/

/-- The text `above` (nearest character first) and `tail` can stand around a line: the line starts
behind a line feed or at the start of the text, and its terminator, if it has one, belongs to it as
a whole. -/
structure SurroundsLine (above line tail : List Char) : Prop where
  above_head : ∀ c ∈ above.head?, c = '\n'
  lineFeed_not_mem : '\n' ∉ line
  tail_eq : tail = [] ∨ (∃ below, tail = '\n' :: below ∧ line.getLast? ≠ some '\r') ∨
    ∃ below, tail = '\r' :: '\n' :: below

/-- A line of a text is surrounded by the lines above and those below. -/
theorem Line.AsRead.surroundsLine {line : Line} {more : List Line}
    (h : Line.AsRead (line :: more)) {above : List Char} (habove : ∀ c ∈ above.head?, c = '\n') :
    SurroundsLine above line.text (line.ending.toList ++ Line.render more) where
  above_head := habove
  lineFeed_not_mem := h.lineFeed_not_mem line List.mem_cons_self
  tail_eq := by
    cases hending : line.ending with
    | missing =>
      obtain rfl := h.eq_nil_of_missing hending
      exact Or.inl rfl
    | lineFeed =>
      exact Or.inr (Or.inl ⟨_, rfl, h.getLast?_ne line List.mem_cons_self hending⟩)
    | carriageReturnLineFeed => exact Or.inr (Or.inr ⟨_, rfl⟩)

namespace SurroundsLine

variable {above line tail : List Char}

theorem breaksLine (h : SurroundsLine above line tail) : BreaksLine tail := by
  rcases h.tail_eq with rfl | ⟨below, rfl, -⟩ | ⟨below, rfl⟩ <;> simp [BreaksLine]

end SurroundsLine

/-! ## Patterns at the ends of a line -/

/-- A line ends in front of a line feed or carriage return, unless the line feed is the second half
of the two together. -/
theorem Assertion.holds_lineEnd_of_breaksLine {before rest : List Char}
    (hbefore : ∀ c ∈ before.head?, c ≠ '\r') (hrest : BreaksLine rest) :
    Assertion.lineEnd.holds before rest = true := by
  cases rest with
  | nil => rfl
  | cons c rest =>
    have hreturn : before.head? ≠ some '\r' := fun h => hbefore '\r' h rfl
    rcases hrest c rfl with rfl | rfl
    · simp [holds, hreturn]
    · simp [holds]

/-- Where a line ends, nothing follows it or a line end. -/
theorem Assertion.breaksLine_of_holds_lineEnd {before rest : List Char}
    (h : Assertion.lineEnd.holds before rest = true) : BreaksLine rest := by
  intro c hc
  obtain ⟨rest, rfl⟩ := List.head?_eq_some_iff.mp hc
  simp only [holds, Bool.or_eq_true, Bool.and_eq_true, beq_iff_eq] at h
  rcases h with rfl | ⟨rfl, -⟩
  · exact Or.inr rfl
  · exact Or.inl rfl

/-- A line starts behind a line terminator. -/
theorem Assertion.eq_of_holds_lineStart {before rest : List Char}
    (h : Assertion.lineStart.holds before rest = true) :
    ∀ c ∈ before.head?, c = '\n' ∨ c = '\r' := by
  cases before with
  | nil => simp
  | cons d before =>
    intro c hc
    obtain rfl := Option.some.inj hc
    simp only [Assertion.holds, Bool.or_eq_true, beq_iff_eq, Bool.and_eq_true] at h
    exact h.imp_right And.left

namespace Pattern

/-- The last thing that the pattern asks for is the end of a line. -/
def endsAtLineEnd : Pattern → Bool
  | .seq first .empty => endsAtLineEnd first
  | .seq _ second => endsAtLineEnd second
  | .alt left right => endsAtLineEnd left && endsAtLineEnd right
  | .group _ body => endsAtLineEnd body
  | .assertion .lineEnd => true
  | _ => false

/-- What such a pattern reads is followed by nothing, or by a line end. -/
theorem Reads.breaksLine {p : Pattern} {before word rest : List Char} {groups : Captures}
    (h : p.Reads before word rest groups) (hp : p.endsAtLineEnd = true) : BreaksLine rest := by
  fun_induction endsAtLineEnd p generalizing before word rest groups with
  | case1 first ih =>
    obtain ⟨front, _, _, _, -, -, hfront, rfl, -⟩ := h
    exact ih hfront hp
  | case2 first second _ ih =>
    obtain ⟨_, back, _, _, -, -, -, hback⟩ := h
    exact ih hback hp
  | case3 left right ih₁ ih₂ =>
    rw [Bool.and_eq_true] at hp
    exact h.elim (ih₁ · hp.1) (ih₂ · hp.2)
  | case4 name body ih =>
    obtain ⟨inner, -, hbody⟩ := h
    exact ih hbody hp
  | case5 => exact Assertion.breaksLine_of_holds_lineEnd h.2.2
  | case6 => exact absurd hp Bool.false_ne_true

end Pattern

/-! ## The ends of a pattern in a line -/

namespace Assertion

variable {above before rest tail : List Char}

theorem holds_lineStart_within (h : SurroundsLine above (before.reverse ++ rest) tail) :
    lineStart.holds (before ++ above) (rest ++ tail) = lineStart.holds before rest := by
  rcases before with _ | ⟨c, before⟩
  · cases above with
    | nil => rfl
    | cons d above =>
      obtain rfl := h.above_head d rfl
      rfl
  · cases rest with
    | cons x rest => rfl
    | nil =>
      show (c == '\n' || (c == '\r' && tail.head? != some '\n'))
        = (c == '\n' || (c == '\r' && true))
      by_cases hc : c = '\r'
      · -- a carriage return at the end of the line is not followed by a line feed alone
        rcases h.tail_eq with rfl | ⟨below, rfl, hlast⟩ | ⟨below, rfl⟩
        · rfl
        · exact absurd (by simp [hc]) hlast
        · rfl
      · rw [beq_eq_false_iff_ne.mpr hc, Bool.false_and, Bool.false_and]

theorem holds_lineEnd_within (h : SurroundsLine above (before.reverse ++ rest) tail) :
    lineEnd.holds (before ++ above) (rest ++ tail) = lineEnd.holds before rest := by
  cases rest with
  | cons x rest =>
    have hx : x ≠ '\n' := fun heq => h.lineFeed_not_mem (by simp [heq])
    show (x == '\r' || (x == '\n' && _)) = (x == '\r' || (x == '\n' && _))
    rw [beq_eq_false_iff_ne.mpr hx, Bool.false_and, Bool.false_and]
  | nil =>
    show lineEnd.holds (before ++ above) tail = true
    rcases h.tail_eq with rfl | ⟨below, rfl, hlast⟩ | ⟨below, rfl⟩
    · rfl
    · -- the character before the line feed ends the line, or it is the line feed above
      have hbefore : (before ++ above).head? ≠ some '\r' := by
        rcases before with _ | ⟨c, before⟩
        · intro hhead
          exact absurd (h.above_head _ hhead) (by decide)
        · simpa using hlast
      simpa [holds] using hbefore
    · rfl

/-- A line end is no part of a word. -/
theorem any_isWord_append {front back : List Char} (h : ∀ c ∈ back.head?, c = '\n' ∨ c = '\r') :
    (front ++ back).head?.any CharClass.isWord = front.head?.any CharClass.isWord := by
  rcases front with _ | ⟨c, front⟩
  · cases back with
    | nil => rfl
    | cons c back => rcases h c rfl with rfl | rfl <;> rfl
  · rfl

/-- Such a condition holds at a place in a line if it does in the whole text. -/
theorem holds_within {condition : Assertion} (hcondition : condition.LineAnchored)
    (h : SurroundsLine above (before.reverse ++ rest) tail) :
    condition.holds (before ++ above) (rest ++ tail) = condition.holds before rest := by
  cases condition with
  | textStart | textEnd => exact absurd hcondition id
  | lineStart => exact holds_lineStart_within h
  | lineEnd => exact holds_lineEnd_within h
  | wordBoundary =>
    rw [holds, holds, any_isWord_append fun c hc => Or.inl (h.above_head c hc),
      any_isWord_append h.breaksLine]

end Assertion

/-- What stands around a line looks to its patterns like the ends of a text. -/
theorem SurroundsLine.surroundsAlike {above line tail : List Char}
    (h : SurroundsLine above line tail) : SurroundsAlike line above tail [] [] := by
  intro condition hcondition before rest hline
  subst hline
  rw [Assertion.holds_within hcondition h, List.append_nil, List.append_nil]

namespace Pattern

variable {above tail : List Char}

/-- As far as they lie in the line, the ends of a pattern are those in the line alone. -/
theorem filter_ends_within {p : Pattern} (hp : p.LineAnchored) {line : List Char}
    (h : SurroundsLine above line tail) (c : Cursor) (hc : c.line = line) :
    (p.ends (c.within above tail)).filter (notBehind tail)
      = (p.ends c).map (Cursor.within above tail) := by
  have halone : ∀ c : Cursor, c.within [] [] = c := fun c => by simp [Cursor.within]
  have hall : (p.ends c).filter (notBehind []) = p.ends c :=
    List.filter_eq_self.mpr fun d _ => decide_eq_true (Nat.zero_le _)
  have hboth := forall₂_ends_within hp h.surroundsAlike c hc
  rw [halone, hall] at hboth
  rw [← List.forall₂_eq_eq_eq, List.forall₂_map_right_iff]
  refine hboth.imp fun d e hsame => ?_
  obtain ⟨f, -, hd, he⟩ := hsame
  rw [hd, he, halone]

/-- The pattern reads something, and only what stands in one line: no line feed, and no carriage
return in the end. -/
structure StaysInLine (p : Pattern) : Prop where
  consumes : p.consumes = true
  anchored : p.LineAnchored
  onlyReads : p.OnlyReads (· ≠ '\n')
  lastReads : p.LastReads (· ≠ '\r')

/-! Whether a pattern stays in a line can be read off it, because of each class it is enough to know
whether it has the line feed or the carriage return in it. -/

instance decidableLineAnchored : (p : Pattern) → Decidable p.LineAnchored
  | .empty => isTrue trivial
  | .one _ => isTrue trivial
  | .seq first second =>
    @instDecidableAnd _ _ (decidableLineAnchored first) (decidableLineAnchored second)
  | .alt left right =>
    @instDecidableAnd _ _ (decidableLineAnchored left) (decidableLineAnchored right)
  | .repeated _ body => decidableLineAnchored body
  | .group _ body => decidableLineAnchored body
  | .assertion .textStart => isFalse id
  | .assertion .textEnd => isFalse id
  | .assertion .lineStart => isTrue trivial
  | .assertion .lineEnd => isTrue trivial
  | .assertion .wordBoundary => isTrue trivial

/-- A class holds only characters other than `c` if it does not hold `c`. -/
theorem forall_ne_iff {accepts : Char → Bool} {c : Char} :
    (∀ x, accepts x = true → x ≠ c) ↔ accepts c = false := by
  constructor
  · intro h
    rw [← Bool.not_eq_true]
    exact fun hc => h c hc rfl
  · rintro h x hx rfl
    rw [h] at hx
    exact Bool.false_ne_true hx

instance decidableOnlyReadsNe (c : Char) : (p : Pattern) → Decidable (p.OnlyReads (· ≠ c))
  | .empty => isTrue trivial
  | .one _ => decidable_of_iff _ forall_ne_iff.symm
  | .seq first second =>
    @instDecidableAnd _ _ (decidableOnlyReadsNe c first) (decidableOnlyReadsNe c second)
  | .alt left right =>
    @instDecidableAnd _ _ (decidableOnlyReadsNe c left) (decidableOnlyReadsNe c right)
  | .repeated _ body => decidableOnlyReadsNe c body
  | .group _ body => decidableOnlyReadsNe c body
  | .assertion _ => isTrue trivial

instance decidableLastReadsNe (c : Char) : (p : Pattern) → Decidable (p.LastReads (· ≠ c))
  | .empty => isTrue trivial
  | .one _ => decidable_of_iff _ forall_ne_iff.symm
  | .seq first second =>
    @instDecidableAnd _ _ (decidableLastReadsNe c second)
      (@instDecidableOr _ _ inferInstance (decidableLastReadsNe c first))
  | .alt left right =>
    @instDecidableAnd _ _ (decidableLastReadsNe c left) (decidableLastReadsNe c right)
  | .repeated _ body => decidableLastReadsNe c body
  | .group _ body => decidableLastReadsNe c body
  | .assertion _ => isTrue trivial

instance decidableFirstReadsNe (c : Char) : (p : Pattern) → Decidable (p.FirstReads (· ≠ c))
  | .empty => isTrue trivial
  | .one _ => decidable_of_iff _ forall_ne_iff.symm
  | .seq first second =>
    @instDecidableAnd _ _ (decidableFirstReadsNe c first)
      (@instDecidableOr _ _ inferInstance (decidableFirstReadsNe c second))
  | .alt left right =>
    @instDecidableAnd _ _ (decidableFirstReadsNe c left) (decidableFirstReadsNe c right)
  | .repeated _ body => decidableFirstReadsNe c body
  | .group _ body => decidableFirstReadsNe c body
  | .assertion _ => isTrue trivial

theorem staysInLine_iff {p : Pattern} : p.StaysInLine ↔ p.consumes = true ∧ p.LineAnchored ∧
    p.OnlyReads (· ≠ '\n') ∧ p.LastReads (· ≠ '\r') :=
  ⟨fun ⟨h₁, h₂, h₃, h₄⟩ => ⟨h₁, h₂, h₃, h₄⟩, fun ⟨h₁, h₂, h₃, h₄⟩ => ⟨h₁, h₂, h₃, h₄⟩⟩

instance decidableStaysInLine (p : Pattern) : Decidable p.StaysInLine :=
  decidable_of_iff _ staysInLine_iff.symm

namespace StaysInLine

variable {p : Pattern} (hp : p.StaysInLine)
include hp

/-- No end of such a pattern lies behind the line. -/
theorem notBehind_of_mem_ends {line : List Char} (h : SurroundsLine above line tail) {c d : Cursor}
    (hd : d ∈ p.ends (c.within above tail)) : notBehind tail d = true := by
  obtain ⟨word, groups, ⟨hrest, -, -⟩, hword⟩ := (mem_ends_iff p _ d).mp hd
  have hfeed := hword.forall_mem hp.onlyReads
  have hlast := hword.forall_last hp.lastReads
  apply decide_eq_true
  rcases List.append_eq_append_iff.mp hrest with ⟨late, rfl, htail⟩ | ⟨between, -, hbehind⟩
  · cases late with
    | nil => exact Nat.le_of_eq (congrArg List.length htail)
    | cons x late =>
      -- the terminator would have to be read, as a whole or its carriage return alone
      rcases h.tail_eq with rfl | ⟨below, rfl, -⟩ | ⟨below, rfl⟩
      · exact absurd htail (by simp)
      · obtain ⟨rfl, -⟩ := List.cons.inj htail
        exact absurd rfl (hfeed '\n' (by simp))
      · obtain ⟨rfl, hbelow⟩ := List.cons.inj htail
        cases late with
        | nil => exact absurd rfl (hlast '\r' (by simp))
        | cons y late =>
          obtain ⟨hy, -⟩ := List.cons.inj hbelow
          exact absurd hy.symm (hfeed y (by simp))
  · rw [hbehind, List.length_append]
    exact Nat.le_add_left _ _

/-- The ends of such a pattern are those in the line alone. -/
theorem ends_within {line : List Char} (h : SurroundsLine above line tail) (c : Cursor)
    (hc : c.line = line) :
    p.ends (c.within above tail) = (p.ends c).map (Cursor.within above tail) := by
  rw [← filter_ends_within hp.anchored h c hc]
  exact (List.filter_eq_self.mpr fun d hd => hp.notBehind_of_mem_ends h hd).symm

/-! ## Matches in a line -/

/-- The match at a place in the line is the one in the line alone. -/
theorem matchAt?_within {line : List Char} (h : SurroundsLine above line tail) (c : Cursor)
    (hc : c.line = line) :
    p.matchAt? (c.within above tail) = (p.matchAt? c).map (Match.within above tail) := by
  have hends := hp.ends_within h { c with groups := [] } hc
  have hstart : { c.within above tail with groups := [] }
      = ({ c with groups := [] } : Cursor).within above tail := rfl
  rw [matchAt?_eq, matchAt?_eq, hstart, hends, List.head?_map, Option.map_map, Option.map_map]
  congr 1
  funext d
  exact Cursor.between_within above tail c d

/-- No match starts with a line feed. -/
theorem matchAt?_lineFeed (before rest : List Char) :
    p.matchAt? ⟨before, '\n' :: rest, []⟩ = none := by
  rw [Option.eq_none_iff_forall_not_mem]
  intro m hm
  obtain ⟨hrest, -, hof⟩ := matchAt?_eq_some hm
  obtain ⟨x, text, htext⟩ := List.exists_cons_of_ne_nil (Reads.ne_nil hof hp.consumes)
  rw [htext] at hrest
  obtain ⟨rfl, -⟩ := List.cons.inj hrest
  exact Reads.forall_mem hof hp.onlyReads '\n' (by simp [htext]) rfl

/-- Nor does one start at the end of the text. -/
theorem matchAt?_nil (before : List Char) : p.matchAt? ⟨before, [], []⟩ = none := by
  rw [Option.eq_none_iff_forall_not_mem]
  intro m hm
  obtain ⟨hrest, -, hof⟩ := matchAt?_eq_some hm
  have htext : m.text = [] := (List.append_eq_nil_iff.mp hrest.symm).1
  exact Reads.ne_nil hof hp.consumes htext

/-- In the line, a search of the whole text takes the same steps as one of the line. -/
theorem findFrom_cons_within {before rest : List Char} {x : Char}
    (h : SurroundsLine above (before.reverse ++ x :: rest) tail) :
    p.findFrom (before ++ above) (x :: rest ++ tail)
      = ((p.matchAt? ⟨before, x :: rest, []⟩).map (Match.within above tail)).or
          (p.findFrom (x :: before ++ above) (rest ++ tail)) := by
  rw [← hp.matchAt?_within h ⟨before, x :: rest, []⟩ rfl]
  exact findFrom_cons p _ _ _

/-- A match found in the line is found in the whole text. -/
theorem findFrom_within {before rest : List Char}
    (h : SurroundsLine above (before.reverse ++ rest) tail) {m : Match}
    (hm : p.findFrom before rest = some m) :
    p.findFrom (before ++ above) (rest ++ tail) = some (m.within above tail) := by
  induction rest generalizing before with
  | nil =>
    rw [findFrom, hp.matchAt?_nil] at hm
    exact absurd hm (Option.some_ne_none m).symm
  | cons x rest ih =>
    rw [hp.findFrom_cons_within h]
    rw [findFrom_cons] at hm
    cases hhere : p.matchAt? ⟨before, x :: rest, []⟩ with
    | some found =>
      rw [hhere] at hm
      obtain rfl := Option.some.inj hm
      rfl
    | none =>
      rw [hhere] at hm
      exact ih (by simpa using h) hm

/-- Where nothing is found in the line, the search goes on behind its terminator. -/
theorem findFrom_within_of_none {before rest below : List Char} {ending : Ending}
    (h : SurroundsLine above (before.reverse ++ rest) (ending.toList ++ below))
    (hm : p.findFrom before rest = none) :
    p.findFrom (before ++ above) (rest ++ (ending.toList ++ below))
      = p.findFrom (ending.toList.reverse ++ (rest.reverse ++ (before ++ above))) below := by
  induction rest generalizing before with
  | nil =>
    have hhere := hp.matchAt?_within h ⟨before, [], []⟩ rfl
    rw [hp.matchAt?_nil] at hhere
    replace hhere : p.matchAt? ⟨before ++ above, ending.toList ++ below, []⟩ = none := hhere
    cases ending with
    | missing => rfl
    | lineFeed =>
      show p.findFrom (before ++ above) ('\n' :: below)
        = p.findFrom ('\n' :: (before ++ above)) below
      rw [findFrom_cons, hp.matchAt?_lineFeed, Option.none_or]
    | carriageReturnLineFeed =>
      show p.findFrom (before ++ above) ('\r' :: '\n' :: below)
        = p.findFrom ('\n' :: '\r' :: (before ++ above)) below
      replace hhere : p.matchAt? ⟨before ++ above, '\r' :: '\n' :: below, []⟩ = none := hhere
      rw [findFrom_cons, hhere, Option.none_or, findFrom_cons, hp.matchAt?_lineFeed,
        Option.none_or]
  | cons x rest ih =>
    rw [findFrom_cons, Option.or_eq_none_iff] at hm
    obtain ⟨hhere, hmore⟩ := hm
    have hline : SurroundsLine above ((x :: before).reverse ++ rest)
        (ending.toList ++ below) := by simpa using h
    rw [hp.findFrom_cons_within h, hhere, Option.map_none, Option.none_or, List.reverse_cons,
      List.append_assoc]
    exact ih hline hmore

/-- Such a pattern never matches the empty text, so a search always goes on behind the match. -/
theorem matchesFrom_eq (barred : Bool) (before rest : List Char) :
    p.matchesFrom barred before rest = match p.findFrom before rest with
      | none => []
      | some m => m :: p.matchesFrom false m.endCursor.before m.after := by
  have hread : ∀ before rest m, p.findFrom before rest = some m → m.text ≠ [] := by
    intro before rest m hm
    obtain ⟨-, -, -, hof⟩ := findFrom_eq_some hm
    exact Reads.ne_nil hof hp.consumes
  have hfree : ∀ before rest, p.matchesFrom true before rest = p.matchesFrom false before rest := by
    intro before rest
    rw [matchesFrom, matchesFrom]
    split
    · rfl
    · rename_i m hm
      rw [dif_neg (fun hempty => hread _ _ m hm hempty.2.1),
        dif_neg (fun hempty => hread _ _ m hm hempty.2.1)]
  rw [matchesFrom]
  split
  · rename_i hnone
    rw [hnone]
  · rename_i m hm
    rw [dif_neg (fun hempty => hread _ _ m hm hempty.2.1), hm, hfree]

/-- The matches from a place in a line on are those in the line and those behind it. -/
theorem matchesFrom_within {before rest below : List Char} {ending : Ending}
    (h : SurroundsLine above (before.reverse ++ rest) (ending.toList ++ below)) :
    p.matchesFrom false (before ++ above) (rest ++ (ending.toList ++ below))
      = (p.matchesFrom false before rest).map (Match.within above (ending.toList ++ below))
        ++ p.matchesFrom false (ending.toList.reverse ++ (rest.reverse ++ (before ++ above)))
            below := by
  induction hn : rest.length using Nat.strongRecOn generalizing before rest with
  | _ n ih =>
    subst hn
    cases hfind : p.findFrom before rest with
    | none =>
      have hbehind := hp.findFrom_within_of_none h hfind
      rw [hp.matchesFrom_eq false before, hfind, hp.matchesFrom_eq false (before ++ above), hbehind,
        ← hp.matchesFrom_eq false]
      rfl
    | some m =>
      obtain ⟨skipped, hrest, hbefore, hof⟩ := findFrom_eq_some hfind
      have hshorter : m.after.length < rest.length := by
        have hlength := List.length_pos_of_ne_nil (Reads.ne_nil hof hp.consumes)
        rw [hrest, List.length_append, List.length_append]
        omega
      have hline : m.endCursor.before.reverse ++ m.after = before.reverse ++ rest := by
        show (m.text.reverse ++ m.before).reverse ++ m.after = _
        rw [hrest, hbefore]
        simp
      have hplace : m.after.reverse ++ (m.endCursor.before ++ above)
          = rest.reverse ++ (before ++ above) := by
        show m.after.reverse ++ ((m.text.reverse ++ m.before) ++ above) = _
        rw [hrest, hbefore]
        simp
      have hmore := ih _ hshorter (hline ▸ h) rfl
      rw [hplace] at hmore
      have hend : (m.within above (ending.toList ++ below)).endCursor.before
          = m.endCursor.before ++ above := by
        show m.text.reverse ++ (m.before ++ above) = (m.text.reverse ++ m.before) ++ above
        rw [List.append_assoc]
      rw [hp.matchesFrom_eq false before, hfind, hp.matchesFrom_eq false (before ++ above),
        hp.findFrom_within h hfind]
      show _ :: p.matchesFrom false (m.within above (ending.toList ++ below)).endCursor.before
        (m.after ++ (ending.toList ++ below)) = _
      rw [hend, hmore]
      rfl

end StaysInLine

/-- The matches in the single lines, as matches in the text that the lines and what stands above
them make up. -/
def matchesByLine (p : Pattern) (above : List Char) : List Line → List Match
  | [] => []
  | line :: more =>
    (p.allMatches line.text).map (Match.within above (line.ending.toList ++ Line.render more))
      ++ matchesByLine p (line.toList.reverse ++ above) more

/-- Behind a line that is not the last one a new line starts. -/
theorem head?_behind_line {line : Line} {more : List Line} (hlines : Line.AsRead (line :: more))
    (hmore : more ≠ []) : ∀ c ∈ (line.toList.reverse ++ above).head?, c = '\n' := by
  have hending : line.ending ≠ .missing := fun h => hmore (hlines.eq_nil_of_missing h)
  obtain ⟨front, hfront⟩ := Line.exists_toList_eq hending
  intro c hc
  rw [hfront, List.reverse_append] at hc
  exact (Option.some.inj hc).symm

theorem StaysInLine.matchesFrom_render {p : Pattern} (hp : p.StaysInLine) {lines : List Line}
    (hlines : Line.AsRead lines) (habove : lines ≠ [] → ∀ c ∈ above.head?, c = '\n') :
    p.matchesFrom false above (Line.render lines) = p.matchesByLine above lines := by
  induction lines generalizing above with
  | nil =>
    rw [hp.matchesFrom_eq, Line.render_nil, findFrom, hp.matchAt?_nil]
    rfl
  | cons line more ih =>
    have hline : SurroundsLine above (([] : List Char).reverse ++ line.text) _ :=
      hlines.surroundsLine (habove (List.cons_ne_nil line more))
    have hfirst := hp.matchesFrom_within hline
    rw [matchesByLine, Line.render_cons, List.append_assoc]
    rw [List.nil_append] at hfirst
    rw [hfirst, ← ih hlines.tail fun hmore => head?_behind_line hlines hmore, allMatches,
      Line.toList, List.reverse_append, List.append_assoc]

/-- A pattern that stays in a line finds in a text what it finds in the single lines. -/
theorem StaysInLine.allMatches_render {p : Pattern} (hp : p.StaysInLine) {lines : List Line}
    (hlines : Line.AsRead lines) :
    p.allMatches (Line.render lines) = p.matchesByLine [] lines :=
  hp.matchesFrom_render hlines fun _ => by simp

end Pattern

end SourceRepair
