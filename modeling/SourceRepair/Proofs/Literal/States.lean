import SourceRepair.Literal.Spans
import SourceRepair.Proofs.Text.Lines

/-!
# The states of the literal scanner

What the scanner does with a character depends on the kind of text that it stands in, on the
template holes open around it and on one character of lookahead, but not on offsets. `ScanState` is
the scanner without them. Its steps say which characters of a text are literal (`mask`) and where
the scanner stands behind a text (`after`).

A line feed ends every step that reads it, whatever follows. So a text can be read line by line
(`lineFeed_split`), and a line reads the same whatever line end stands behind it
(`mask_line`).
-/

namespace SourceRepair

/-- The kind of text that the scanner stands in. -/
inductive LiteralKind where
  | code
  | quoted (quote : Char)
  | template
  | lineComment
  | blockComment
  deriving DecidableEq, Repr, Inhabited

/-- The kind of text without the offset where it began. -/
def ScanMode.kind : ScanMode → LiteralKind
  | .code => .code
  | .quoted quote _ => .quoted quote
  | .template _ => .template
  | .lineComment _ => .lineComment
  | .blockComment _ => .blockComment

/-- A scanner without offsets: the kind of text that it stands in, and the numbers of open braces in
the template holes around it, innermost first. -/
structure ScanState where
  kind : LiteralKind
  holes : List Nat
  deriving DecidableEq, Repr, Inhabited

/-- What the scanner makes of a character. -/
structure CharStep where
  /-- The characters read belong to a literal or comment. -/
  covered : Bool
  /-- The character ahead is read in the same step. -/
  readsNext : Bool
  next : ScanState
  deriving DecidableEq, Repr, Inhabited

namespace ScanState

/-- The scanner before a text. -/
def initial : ScanState :=
  ⟨.code, []⟩

/-- The step for the character `c` with `ahead` behind it, if the text goes on. -/
def step (s : ScanState) (c : Char) (ahead : Option Char) : CharStep :=
  match s.kind with
  | .code =>
    if c = '\'' ∨ c = '"' then ⟨false, false, ⟨.quoted c, s.holes⟩⟩
    else if c = '\x60' then ⟨false, false, ⟨.template, s.holes⟩⟩
    else if c = '/' ∧ ahead = some '/' then ⟨true, true, ⟨.lineComment, s.holes⟩⟩
    else if c = '/' ∧ ahead = some '*' then ⟨true, true, ⟨.blockComment, s.holes⟩⟩
    else if c = '{' then
      match s.holes with
      | [] => ⟨false, false, s⟩
      | depth :: outer => ⟨false, false, ⟨.code, (depth + 1) :: outer⟩⟩
    else if c = '}' then
      match s.holes with
      | [] => ⟨false, false, s⟩
      | 0 :: outer => ⟨false, false, ⟨.template, outer⟩⟩
      | (depth + 1) :: outer => ⟨false, false, ⟨.code, depth :: outer⟩⟩
    else ⟨false, false, s⟩
  | .quoted quote =>
    if c = '\\' then ⟨true, ahead.isSome, s⟩
    else if c = '\n' ∨ c = quote then ⟨false, false, ⟨.code, s.holes⟩⟩
    else ⟨true, false, s⟩
  | .template =>
    if c = '\\' then ⟨true, ahead.isSome, s⟩
    else if c = '\x60' then ⟨false, false, ⟨.code, s.holes⟩⟩
    else if c = '$' ∧ ahead = some '{' then ⟨false, true, ⟨.code, 0 :: s.holes⟩⟩
    else ⟨true, false, s⟩
  | .lineComment =>
    if c = '\n' then ⟨false, false, ⟨.code, s.holes⟩⟩ else ⟨true, false, s⟩
  | .blockComment =>
    if c = '*' ∧ ahead = some '/' then ⟨true, true, ⟨.code, s.holes⟩⟩ else ⟨true, false, s⟩

/-- For each character of a text whether it belongs to a literal or comment. -/
def mask (s : ScanState) : List Char → List Bool
  | [] => []
  | [c] => [(s.step c none).covered]
  | c :: d :: rest =>
    if (s.step c (some d)).readsNext then
      (s.step c (some d)).covered :: (s.step c (some d)).covered
        :: mask (s.step c (some d)).next rest
    else (s.step c (some d)).covered :: mask (s.step c (some d)).next (d :: rest)

/-- The scanner behind a text. -/
def after (s : ScanState) : List Char → ScanState
  | [] => s
  | [c] => (s.step c none).next
  | c :: d :: rest =>
    if (s.step c (some d)).readsNext then after (s.step c (some d)).next rest
    else after (s.step c (some d)).next (d :: rest)

variable {s : ScanState} {c d : Char}

@[simp] theorem mask_nil : s.mask [] = [] := rfl

@[simp] theorem after_nil : s.after [] = s := rfl

/-- A step that reads one character is followed by the steps for the others. -/
theorem mask_cons (rest : List Char) (h : (s.step c rest.head?).readsNext = false) :
    s.mask (c :: rest) = (s.step c rest.head?).covered :: mask (s.step c rest.head?).next rest := by
  cases rest with
  | nil => rfl
  | cons d rest =>
    have hread : (s.step c (some d)).readsNext = false := h
    rw [mask, hread]
    rfl

theorem after_cons (rest : List Char) (h : (s.step c rest.head?).readsNext = false) :
    s.after (c :: rest) = after (s.step c rest.head?).next rest := by
  cases rest with
  | nil => rfl
  | cons d rest =>
    have hread : (s.step c (some d)).readsNext = false := h
    rw [after, hread]
    rfl

/-- A step that reads two characters is followed by the steps for the others. -/
theorem mask_cons_cons {rest : List Char} (h : (s.step c (some d)).readsNext = true) :
    s.mask (c :: d :: rest) = (s.step c (some d)).covered :: (s.step c (some d)).covered
      :: mask (s.step c (some d)).next rest := by
  rw [mask, if_pos h]

theorem after_cons_cons {rest : List Char} (h : (s.step c (some d)).readsNext = true) :
    s.after (c :: d :: rest) = after (s.step c (some d)).next rest := by
  rw [after, if_pos h]

/-- Every character is literal or not. -/
@[simp] theorem length_mask (s : ScanState) (text : List Char) :
    (s.mask text).length = text.length := by
  fun_induction mask s text with
  | case1 => rfl
  | case2 => rfl
  | case3 s c d rest _ ih => simp [ih]
  | case4 s c d rest _ ih => simp [ih]

/-! ## Reading line by line -/

/-- The step for a line feed reads nothing else, and does not look ahead. -/
theorem step_lineFeed (s : ScanState) (ahead : Option Char) :
    s.step '\n' ahead = s.step '\n' none ∧ (s.step '\n' none).readsNext = false := by
  obtain ⟨kind, holes⟩ := s
  cases kind <;> simp [step]

/-- A line feed at the start of a text is read on its own. -/
theorem mask_cons_lineFeed (s : ScanState) (text : List Char) :
    s.mask ('\n' :: text) = s.mask ['\n'] ++ mask (s.after ['\n']) text := by
  obtain ⟨hstep, hread⟩ := s.step_lineFeed text.head?
  rw [mask_cons text (by rw [hstep]; exact hread), hstep]
  rfl

theorem after_cons_lineFeed (s : ScanState) (text : List Char) :
    s.after ('\n' :: text) = after (s.after ['\n']) text := by
  obtain ⟨hstep, hread⟩ := s.step_lineFeed text.head?
  rw [after_cons text (by rw [hstep]; exact hread), hstep]
  rfl

/-- A text is read up to a line feed and from there on. -/
theorem lineFeed_split (s : ScanState) (front back : List Char) :
    s.mask (front ++ '\n' :: back)
        = s.mask (front ++ ['\n']) ++ mask (s.after (front ++ ['\n'])) back ∧
      s.after (front ++ '\n' :: back) = after (s.after (front ++ ['\n'])) back := by
  fun_induction mask s front with
  | case1 s => exact ⟨s.mask_cons_lineFeed back, s.after_cons_lineFeed back⟩
  | case2 s c =>
    show s.mask (c :: '\n' :: back) = s.mask [c, '\n'] ++ mask (s.after [c, '\n']) back ∧
      s.after (c :: '\n' :: back) = after (s.after [c, '\n']) back
    -- the line feed may be read together with the character before it
    by_cases h : (s.step c (some '\n')).readsNext = true
    · rw [mask_cons_cons h, mask_cons_cons h, after_cons_cons h, after_cons_cons h]
      exact ⟨rfl, rfl⟩
    · rw [Bool.not_eq_true] at h
      rw [mask_cons ('\n' :: back) h, mask_cons ['\n'] h, after_cons ('\n' :: back) h,
        after_cons ['\n'] h]
      exact ⟨congrArg _ (mask_cons_lineFeed _ back), after_cons_lineFeed _ back⟩
  | case3 s c d rest h ih =>
    simp only [List.cons_append] at ih ⊢
    rw [mask_cons_cons h, mask_cons_cons h, after_cons_cons h, after_cons_cons h, ih.1, ih.2]
    exact ⟨rfl, rfl⟩
  | case4 s c d rest h ih =>
    rw [Bool.not_eq_true] at h
    simp only [List.cons_append] at ih ⊢
    rw [mask_cons (d :: (rest ++ '\n' :: back)) h, mask_cons (d :: (rest ++ ['\n'])) h,
      after_cons (d :: (rest ++ '\n' :: back)) h, after_cons (d :: (rest ++ ['\n'])) h]
    exact ⟨congrArg _ ih.1, ih.2⟩

/-- A line end is nothing that a step looks out for. -/
theorem covered_step_lineEnd (s : ScanState) (c : Char) {ahead : Char}
    (h : ahead = '\n' ∨ ahead = '\r') :
    (s.step c (some ahead)).covered = (s.step c none).covered := by
  obtain ⟨kind, holes⟩ := s
  by_cases hescape : c = '\\'
  · rcases h with rfl | rfl <;> cases kind <;> simp [step, hescape]
  · rcases h with rfl | rfl <;> cases kind <;> simp [step, hescape]

/-- A line reads the same whatever line end stands behind it. -/
theorem mask_line (s : ScanState) (line : List Char) {tail : List Char} (htail : BreaksLine tail) :
    (s.mask (line ++ tail)).take line.length = s.mask line := by
  fun_induction mask s line with
  | case1 => rfl
  | case2 s c =>
    cases tail with
    | nil => rfl
    | cons e tail =>
      have hcovered := s.covered_step_lineEnd c (htail e rfl)
      show (s.mask (c :: e :: tail)).take 1 = _
      rw [mask]
      split <;> simp [hcovered]
  | case3 s c d rest h ih =>
    simp only [List.cons_append]
    rw [mask_cons_cons h]
    exact congrArg (fun m => _ :: _ :: m) ih
  | case4 s c d rest h ih =>
    rw [Bool.not_eq_true] at h
    simp only [List.cons_append] at ih ⊢
    rw [mask_cons (d :: (rest ++ tail)) h]
    exact congrArg (fun m => _ :: m) ih

/-- The first of some lines is read up to the end of its terminator, and the others from there on.
-/
theorem render_cons_split (s : ScanState) {line : Line} {more : List Line}
    (h : Line.AsRead (line :: more)) :
    s.mask (Line.render (line :: more))
        = s.mask line.toList ++ mask (s.after line.toList) (Line.render more) ∧
      s.after (Line.render (line :: more)) = after (s.after line.toList) (Line.render more) := by
  by_cases hending : line.ending = .missing
  · obtain rfl := h.eq_nil_of_missing hending
    have htext : Line.render [line] = line.toList := List.append_nil _
    simp [htext]
  · obtain ⟨front, hfront⟩ := Line.exists_toList_eq hending
    have htext : Line.render (line :: more) = front ++ '\n' :: Line.render more := by
      show line.toList ++ Line.render more = _
      rw [hfront, List.append_assoc]
      rfl
    rw [htext, hfront]
    exact s.lineFeed_split front (Line.render more)

/-- Wherever a line starts behind a line feed of a text that is read from `s`, the scanner stands in
a state with the property `good`. -/
def AtLineStarts (good : ScanState → Prop) (s : ScanState) (text : List Char) : Prop :=
  ∀ before c after, text = before ++ '\n' :: c :: after → good (s.after (before ++ ['\n']))

/-- The line behind the first one starts in such a state, and so do those that follow it. -/
theorem AtLineStarts.tail {good : ScanState → Prop} {s : ScanState} {line : Line}
    {more : List Line} (h : AtLineStarts good s (Line.render (line :: more)))
    (hlines : Line.AsRead (line :: more)) (hmore : more ≠ []) :
    good (s.after line.toList) ∧ AtLineStarts good (s.after line.toList) (Line.render more) := by
  have hending : line.ending ≠ .missing := fun h => hmore (hlines.eq_nil_of_missing h)
  obtain ⟨front, hfront⟩ := Line.exists_toList_eq hending
  have htext : ∀ rest, line.toList ++ rest = front ++ '\n' :: rest := by
    intro rest
    rw [hfront, List.append_assoc]
    rfl
  have hrender : Line.render (line :: more) = front ++ '\n' :: Line.render more := htext _
  constructor
  · obtain ⟨next, more, rfl⟩ := List.exists_cons_of_ne_nil hmore
    obtain ⟨c, rest, hnext⟩ := List.exists_cons_of_ne_nil
      (hlines.toList_ne next (List.mem_cons_of_mem line List.mem_cons_self))
    have hbelow : Line.render (next :: more) = c :: (rest ++ Line.render more) := by
      show next.toList ++ Line.render more = _
      rw [hnext]
      rfl
    rw [hfront]
    exact h front c _ (by rw [hrender, hbelow])
  · intro before c after hbelow
    have hall := h (front ++ '\n' :: before) c after (by rw [hrender, hbelow]; simp)
    have hread := (s.lineFeed_split front (before ++ ['\n'])).2
    rw [List.append_assoc, List.cons_append, hread] at hall
    rw [hfront]
    exact hall

/-! ## Line ends with carriage returns -/

/-- No step looks out for the difference between the two line ends. -/
theorem step_return_ahead (s : ScanState) (c : Char) :
    s.step c (some '\r') = s.step c (some '\n') := by
  obtain ⟨kind, holes⟩ := s
  cases kind <;> simp [step]

/-- A carriage return in front of a line feed changes nothing. -/
theorem after_return_lineFeed (s : ScanState) : s.after ['\r', '\n'] = s.after ['\n'] := by
  obtain ⟨kind, holes⟩ := s
  cases kind with
  | quoted quote =>
    by_cases hquote : '\r' = quote
    · subst hquote
      rfl
    · simp [after, step, hquote]
  | code | template | lineComment | blockComment => simp [after, step]

/-- Only a backslash takes a line feed with it. -/
theorem readsNext_lineFeed_of_ne (s : ScanState) {c : Char} (h : c ≠ '\\') :
    (s.step c (some '\n')).readsNext = false := by
  obtain ⟨kind, holes⟩ := s
  cases kind with
  | code =>
    -- braces are counted in the holes
    rcases holes with _ | ⟨_ | depth, outer⟩
    all_goals
      simp only [step]
      repeat' split
      all_goals simp_all
  | quoted | template | lineComment | blockComment =>
    simp only [step]
    repeat' split
    all_goals simp_all

/-- It does so in a string or template, and the scanner stays there. -/
theorem next_of_reads_lineFeed {s : ScanState} {c : Char}
    (h : (s.step c (some '\n')).readsNext = true) :
    (s.step c (some '\n')).next = s ∧
      ((∃ quote, s.kind = .quoted quote) ∨ s.kind = .template) := by
  by_cases hescape : c = '\\'
  · subst hescape
    obtain ⟨kind, holes⟩ := s
    cases kind with
    | quoted quote => exact ⟨rfl, Or.inl ⟨quote, rfl⟩⟩
    | template => exact ⟨rfl, Or.inr rfl⟩
    | code | lineComment | blockComment => exact absurd h (by simp [step])
  · rw [s.readsNext_lineFeed_of_ne hescape] at h
    exact absurd h Bool.false_ne_true

/-- Behind a line the scanner stands in the same state for both line ends, unless a backslash takes
the line feed into a string. -/
theorem after_line_return (s : ScanState) (line : List Char)
    (h : ∀ quote, (s.after (line ++ ['\n'])).kind ≠ .quoted quote) :
    s.after (line ++ ['\r', '\n']) = s.after (line ++ ['\n']) := by
  fun_induction mask s line with
  | case1 s => exact s.after_return_lineFeed
  | case2 s c =>
    show s.after [c, '\r', '\n'] = s.after [c, '\n']
    replace h : ∀ quote, (s.after [c, '\n']).kind ≠ .quoted quote := h
    by_cases hread : (s.step c (some '\n')).readsNext = true
    · have hread' : (s.step c (some '\r')).readsNext = true := s.step_return_ahead c ▸ hread
      rw [after_cons_cons hread] at h ⊢
      rw [after_cons_cons hread', s.step_return_ahead]
      -- what goes on behind the line is a template, for which a line feed is nothing special
      obtain ⟨hstay, ⟨quote, hquoted⟩ | htemplate⟩ := next_of_reads_lineFeed hread
      · rw [hstay] at h
        exact absurd hquoted (h quote)
      · rw [hstay]
        show (s.step '\n' none).next = s
        simp [step, htemplate]
    · rw [Bool.not_eq_true] at hread
      have hread' : (s.step c (some '\r')).readsNext = false := s.step_return_ahead c ▸ hread
      rw [after_cons ['\n'] hread, after_cons ['\r', '\n'] hread']
      show after (s.step c (some '\r')).next _ = _
      rw [step_return_ahead, after_return_lineFeed]
      rfl
  | case3 s c d rest hread ih =>
    simp only [List.cons_append] at h ⊢
    rw [after_cons_cons hread] at h ⊢
    rw [after_cons_cons hread]
    exact ih h
  | case4 s c d rest hread ih =>
    rw [Bool.not_eq_true] at hread
    simp only [List.cons_append] at h ih ⊢
    rw [after_cons (d :: (rest ++ ['\n'])) hread] at h ⊢
    rw [after_cons (d :: (rest ++ ['\r', '\n'])) hread]
    exact ih h

end ScanState
end SourceRepair
