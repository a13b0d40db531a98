import SourceRepair.Proofs.Text.Lines

/-!
# Lines as pieces of a text

The lines of a text are the pieces that it falls into when it is cut behind every line feed
(`Text.piecesWith`), each taken apart into its own text and its terminator. `Line.ofPiece` looks for
the longer terminator first, so a carriage return in front of the line feed is never left to the
text. Reading a text from front to back gives the same lines (`Line.ofText_eq_map_ofPiece`).

Lines as read come back when they are written and read (`Line.ofText_render`). So texts and lines as
read are in step one to one, which `Line.ofText_roundTrip` puts together.
-/

namespace SourceRepair

namespace Text

/-- The pieces of `text` that are cut behind each `separator`, which stays with the piece in front
of it; what follows the last separator is a piece only if it is something. -/
def piecesWith (separator : Char) : List Char → List (List Char)
  | [] => []
  | c :: rest =>
    if c = separator then [c] :: piecesWith separator rest
    else
      match piecesWith separator rest with
      | [] => [[c]]
      | piece :: more => (c :: piece) :: more

variable {separator : Char}

/-- A text without the separator is its only piece. -/
theorem piecesWith_of_not_mem {text : List Char} (h : separator ∉ text) (hne : text ≠ []) :
    piecesWith separator text = [text] := by
  induction text with
  | nil => exact absurd rfl hne
  | cons c rest ih =>
    obtain ⟨hc, hrest⟩ := List.ne_and_not_mem_of_not_mem_cons h
    rw [piecesWith, if_neg (Ne.symm hc)]
    by_cases hnil : rest = []
    · rw [hnil]
      rfl
    · rw [ih hrest hnil]

/-- The first piece ends at the first separator. -/
theorem piecesWith_append_cons {front : List Char} (h : separator ∉ front) (rest : List Char) :
    piecesWith separator (front ++ separator :: rest)
      = (front ++ [separator]) :: piecesWith separator rest := by
  induction front with
  | nil => rw [List.nil_append, piecesWith, if_pos rfl, List.nil_append]
  | cons c front ih =>
    obtain ⟨hc, hfront⟩ := List.ne_and_not_mem_of_not_mem_cons h
    rw [List.cons_append, piecesWith, if_neg (Ne.symm hc), ih hfront]
    rfl

end Text

/-- The terminators are told apart by their characters. -/
theorem Ending.toList_eq_nil_iff {ending : Ending} : ending.toList = [] ↔ ending = .missing := by
  cases ending <;> simp [Ending.toList]

theorem Ending.toList_eq_lineFeed_iff {ending : Ending} :
    ending.toList = ['\n'] ↔ ending = .lineFeed := by
  cases ending <;> simp [Ending.toList]

namespace Line

/-- A piece as a line: its terminator is the longer one if it ends with that, else the line feed if
it ends with one. -/
def ofPiece (piece : List Char) : Line :=
  if ['\r', '\n'] <:+ piece then ⟨piece.take (piece.length - 2), .carriageReturnLineFeed⟩
  else if ['\n'] <:+ piece then ⟨piece.take (piece.length - 1), .lineFeed⟩
  else ⟨piece, .missing⟩

/-- A line is taken apart into what it was made of, unless its text runs into its terminator. -/
theorem ofPiece_toList {line : Line} (hfeed : '\n' ∉ line.text)
    (hreturn : line.ending = .lineFeed → line.text.getLast? ≠ some '\r') :
    ofPiece line.toList = line := by
  obtain ⟨text, ending⟩ := line
  cases ending with
  | missing =>
    have hnone : ¬['\n'] <:+ text := fun h => hfeed (h.subset List.mem_cons_self)
    have hnone' : ¬['\r', '\n'] <:+ text := fun h =>
      hfeed (h.subset (List.mem_cons_of_mem _ List.mem_cons_self))
    simp [ofPiece, toList, Ending.toList, hnone, hnone']
  | lineFeed =>
    have hnone : ¬['\r', '\n'] <:+ text ++ ['\n'] := by
      rintro ⟨front, h⟩
      have hsplit : front ++ ['\r'] ++ ['\n'] = text ++ ['\n'] := by simpa using h
      have hfront := List.append_cancel_right hsplit
      exact hreturn rfl (by simp [← hfront])
    simp [ofPiece, toList, Ending.toList, hnone]
  | carriageReturnLineFeed =>
    simp [ofPiece, toList, Ending.toList]

/-- Written lines fall into the same pieces again. -/
theorem piecesWith_render {lines : List Line} (h : AsRead lines) :
    Text.piecesWith '\n' (render lines) = lines.map toList := by
  induction lines with
  | nil => rfl
  | cons line more ih =>
    have hfeed := h.lineFeed_not_mem line List.mem_cons_self
    have hrender : render (line :: more) = line.toList ++ render more := rfl
    by_cases hending : line.ending = .missing
    · obtain rfl := h.eq_nil_of_missing hending
      have htoList : line.toList = line.text := by
        rw [toList, hending, Ending.toList, List.append_nil]
      have hne := h.toList_ne line List.mem_cons_self
      rw [htoList] at hne
      rw [hrender, render_nil, List.append_nil, htoList, Text.piecesWith_of_not_mem hfeed hne,
        List.map_singleton, htoList]
    · obtain ⟨front, hfront, hfree⟩ := exists_toList_eq_append hending hfeed
      rw [hrender, hfront, List.append_assoc, List.singleton_append,
        Text.piecesWith_append_cons hfree, ih h.tail, List.map_cons, hfront]

/-- Their pieces make them again. -/
theorem map_ofPiece_render {lines : List Line} (h : AsRead lines) :
    (Text.piecesWith '\n' (render lines)).map ofPiece = lines := by
  have hline : ∀ line ∈ lines, ofPiece line.toList = line := fun line hline =>
    ofPiece_toList (h.lineFeed_not_mem line hline) (h.getLast?_ne line hline)
  rw [piecesWith_render h, List.map_map]
  exact (List.map_congr_left hline).trans (List.map_id' lines)

/-- The lines of a text are its pieces. -/
theorem ofText_eq_map_ofPiece (text : List Char) :
    ofText text = (Text.piecesWith '\n' text).map ofPiece := by
  have h := map_ofPiece_render (asRead_ofText text)
  rw [render_ofText] at h
  exact h.symm

/-- Lines as read are read again when they are written. -/
theorem ofText_render {lines : List Line} (h : AsRead lines) : ofText (render lines) = lines := by
  rw [ofText_eq_map_ofPiece, map_ofPiece_render h]

/-- Reading the lines of a text takes it apart behind its line feeds, and writing them back gives it
byte for byte. There are as many terminators as lines; no line holds a line feed; a terminator is
one of three, and only the last one can be empty; a line in front of a line feed alone does not end
in a carriage return. No other lines of this kind make the text. -/
theorem ofText_roundTrip (text : List Char) :
    let texts := (ofText text).map (·.text)
    let endings := (ofText text).map (·.ending.toList)
    ofText text = (Text.piecesWith '\n' text).map ofPiece ∧
      render (ofText text) = text ∧
      texts.length = endings.length ∧
      (∀ line ∈ texts, '\n' ∉ line) ∧
      (∀ ending ∈ endings, ending = ['\n'] ∨ ending = ['\r', '\n'] ∨ ending = []) ∧
      (∀ ending ∈ endings.dropLast, ending ≠ []) ∧
      (∀ pair ∈ texts.zip endings, pair.2 = ['\n'] → pair.1.getLast? ≠ some '\r') ∧
      ∀ lines, AsRead lines → render lines = text → lines = ofText text := by
  intro texts endings
  obtain ⟨-, hfeed, hreturn, hended⟩ := asRead_ofText text
  refine ⟨ofText_eq_map_ofPiece text, render_ofText text, by simp [texts, endings], ?_, ?_, ?_, ?_,
    ?_⟩
  · simpa [texts] using hfeed
  · intro ending hending
    obtain ⟨line, -, rfl⟩ := List.mem_map.mp hending
    cases line.ending <;> simp [Ending.toList]
  · intro ending hending
    rw [← List.map_dropLast] at hending
    obtain ⟨line, hline, rfl⟩ := List.mem_map.mp hending
    exact fun hnil => hended line hline (Ending.toList_eq_nil_iff.mp hnil)
  · intro pair hpair hlineFeed
    rw [List.zip_map'] at hpair
    obtain ⟨line, hline, rfl⟩ := List.mem_map.mp hpair
    exact hreturn line hline (Ending.toList_eq_lineFeed_iff.mp hlineFeed)
  · rintro lines hlines rfl
    exact (ofText_render hlines).symm

/-- A carriage return alone ends no line, and of two in front of a line feed the first one belongs
to the line. -/
example : ofText "a\rb\r\r\n\nc".toList = [⟨"a\rb\r".toList, .carriageReturnLineFeed⟩,
    ⟨[], .lineFeed⟩, ⟨['c'], .missing⟩] := by decide

end Line
end SourceRepair
