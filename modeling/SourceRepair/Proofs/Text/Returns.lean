import SourceRepair.Proofs.Text.Cutting
import SourceRepair.Proofs.Text.Lines

/-!
# The two kinds of line ends

`withReturns` puts a carriage return in front of every line feed of a text. A text without carriage
returns keeps its lines by this: their texts stay, and their terminators become the longer ones
(`ofText_withReturns`). Offsets move, but of two places in one text the later one stays the later
one (`utf8Size_withReturns_le_iff`).
-/

namespace SourceRepair

namespace Text

/-- The text with a carriage return in front of every line feed. -/
def withReturns (text : List Char) : List Char :=
  text.flatMap fun c => if c = '\n' then ['\r', '\n'] else [c]

@[simp] theorem withReturns_nil : withReturns [] = [] := rfl

@[simp] theorem withReturns_lineFeed (rest : List Char) :
    withReturns ('\n' :: rest) = '\r' :: '\n' :: withReturns rest := rfl

theorem withReturns_cons_of_ne {c : Char} (h : c ≠ '\n') (rest : List Char) :
    withReturns (c :: rest) = c :: withReturns rest := by
  simp [withReturns, h]

@[simp] theorem withReturns_append (s t : List Char) :
    withReturns (s ++ t) = withReturns s ++ withReturns t := by
  simp [withReturns]

/-- Text on one line stays as it is. -/
theorem withReturns_of_not_mem {text : List Char} (h : '\n' ∉ text) : withReturns text = text := by
  induction text with
  | nil => rfl
  | cons c rest ih =>
    rw [List.mem_cons, not_or] at h
    rw [withReturns_cons_of_ne (Ne.symm h.1), ih h.2]

/-- A text gets no shorter. -/
theorem utf8Size_le_withReturns (text : List Char) :
    utf8Size text ≤ utf8Size (withReturns text) := by
  induction text with
  | nil => exact Nat.le_refl 0
  | cons c rest ih =>
    by_cases h : c = '\n'
    · subst h
      rw [withReturns_lineFeed]
      simp only [utf8Size_cons]
      omega
    · rw [withReturns_cons_of_ne h, utf8Size_cons, utf8Size_cons]
      omega

/-- Of two places in one text, the one that comes first does so with carriage returns as well. -/
theorem utf8Size_withReturns_le_iff {front back front' back' : List Char}
    (h : front ++ back = front' ++ back') :
    utf8Size (withReturns front) ≤ utf8Size (withReturns front')
      ↔ utf8Size front ≤ utf8Size front' := by
  constructor
  · intro hle
    apply Nat.le_of_not_lt
    intro hlt
    -- what stands between the two places takes bytes, and more of them with carriage returns
    obtain ⟨between, rfl, -⟩ := exists_of_append_eq_append h.symm (Nat.le_of_lt hlt)
    have hbetween := utf8Size_le_withReturns between
    rw [utf8Size_append] at hlt
    rw [withReturns_append, utf8Size_append] at hle
    omega
  · intro hle
    obtain ⟨between, rfl, -⟩ := exists_of_append_eq_append h hle
    rw [withReturns_append, utf8Size_append]
    exact Nat.le_add_right _ _

end Text

/-- The terminator with a carriage return in front of its line feed. -/
def Ending.withReturn : Ending → Ending
  | .missing => .missing
  | .lineFeed => .carriageReturnLineFeed
  | .carriageReturnLineFeed => .carriageReturnLineFeed

/-- A line feed or nothing has its characters with carriage returns. -/
theorem Ending.toList_withReturn {ending : Ending} (h : ending ≠ .carriageReturnLineFeed) :
    ending.withReturn.toList = Text.withReturns ending.toList := by
  cases ending with
  | missing => rfl
  | lineFeed => rfl
  | carriageReturnLineFeed => exact absurd rfl h

namespace Line

/-- The line with a carriage return in front of its line feed. -/
def withReturn (line : Line) : Line :=
  ⟨line.text, line.ending.withReturn⟩

@[simp] theorem withReturn_text (line : Line) : line.withReturn.text = line.text := rfl

@[simp] theorem withReturn_ending (line : Line) :
    line.withReturn.ending = line.ending.withReturn := rfl

/-- Lines keep their texts. -/
@[simp] theorem map_text_withReturn (lines : List Line) :
    (lines.map withReturn).map (·.text) = lines.map (·.text) := by
  rw [List.map_map]
  rfl

/-- A line that ends in a line feed or not at all has its characters with carriage returns. -/
theorem withReturn_toList {line : Line} (htext : '\n' ∉ line.text)
    (hending : line.ending ≠ .carriageReturnLineFeed) :
    line.withReturn.toList = Text.withReturns line.toList := by
  rw [toList, toList, Text.withReturns_append, Text.withReturns_of_not_mem htext, withReturn_text,
    withReturn_ending, Ending.toList_withReturn hending]

/-- The lines of a text without carriage returns end in line feeds or not at all. -/
theorem ending_ne_of_return_not_mem {text : List Char} (h : '\r' ∉ text) :
    ∀ line ∈ ofText text, line.ending ≠ .carriageReturnLineFeed := by
  intro line hline hending
  apply h
  have hmem : '\r' ∈ line.toList := by
    rw [toList, hending]
    exact List.mem_append_right _ List.mem_cons_self
  rw [← render_ofText text]
  exact List.mem_flatMap.mpr ⟨line, hline, hmem⟩

/-- A text without carriage returns keeps its lines when it gets them. -/
theorem ofText_withReturns {text : List Char} (h : '\r' ∉ text) :
    ofText (Text.withReturns text) = (ofText text).map withReturn := by
  fun_induction ofText text with
  | case1 => rfl
  | case2 rest ih =>
    rw [List.mem_cons, not_or] at h
    rw [Text.withReturns_lineFeed, ofText, ih h.2]
    rfl
  | case3 rest _ => exact absurd List.mem_cons_self h
  | case4 c rest hlineFeed _ ih =>
    rw [List.mem_cons, not_or] at h
    rw [Text.withReturns_cons_of_ne hlineFeed, ofText, ih h.2]
    · cases ofText rest <;> rfl
    · exact hlineFeed
    · rintro _ rfl _
      exact h.1 rfl

/-- Lines that end in line feeds or not at all make the text with carriage returns. -/
theorem render_map_withReturn {lines : List Line} (htext : ∀ line ∈ lines, '\n' ∉ line.text)
    (hending : ∀ line ∈ lines, line.ending ≠ .carriageReturnLineFeed) :
    render (lines.map withReturn) = Text.withReturns (render lines) := by
  induction lines with
  | nil => rfl
  | cons line more ih =>
    rw [List.forall_mem_cons] at htext hending
    show line.withReturn.toList ++ render (more.map withReturn)
      = Text.withReturns (line.toList ++ render more)
    rw [withReturn_toList htext.1 hending.1, ih htext.2 hending.2, Text.withReturns_append]

end Line
end SourceRepair
