import Mathlib
import SourceRepair.Path

/-!
# Paths in their plainest spelling

An absolute path that is spelled without `.` and superfluous slashes is its own resolution, from
wherever it is seen.
-/

namespace SourceRepair

/-- Reading a piece of a path as a component loses nothing. -/
@[simp] theorem Component.toPiece_ofPiece (piece : List Char) :
    (Component.ofPiece piece).toPiece = piece := by
  unfold ofPiece
  split
  · rename_i h
    rw [h]
    rfl
  · split
    · rename_i h
      rw [h]
      rfl
    · exact String.toList_ofList

namespace Path

/-- The path is absolute and has no `.` in it, no slash twice in a row, and no slash at its end
unless it is the root. -/
def IsPlain (p : Path) : Prop :=
  p.isAbsolute = true ∧ (p.spelling = "/" ∨
    ∀ piece ∈ (Text.pieces '/' p.spelling.toList).tail, piece ≠ [] ∧ piece ≠ ['.'])

/-- An absolute path starts with a slash. -/
theorem exists_eq_cons_of_isAbsolute {p : Path} (h : p.isAbsolute = true) :
    ∃ rest, p.spelling.toList = '/' :: rest := by
  have hhead : p.spelling.toList.head? = some '/' := by simpa [isAbsolute] using h
  exact List.head?_eq_some_iff.mp hhead

/-- Whether a piece of a path counts: an empty one and a `.` do not. -/
def counts (piece : List Char) : Bool :=
  piece ≠ [] ∧ piece ≠ ['.']

theorem counts_iff {piece : List Char} : counts piece = true ↔ piece ≠ [] ∧ piece ≠ ['.'] :=
  decide_eq_true_iff

/-- The components are read off the pieces that count. -/
theorem componentsOfPieces_eq (pieces : List (List Char)) :
    componentsOfPieces pieces = (pieces.filter counts).map Component.ofPiece := by
  have hhere : ∀ piece, (Component.ofPiece piece != .here) = decide (piece ≠ ['.']) := by
    intro piece
    unfold Component.ofPiece
    split
    · rename_i hdot
      rw [hdot]
      rfl
    · rename_i hdot
      rw [decide_eq_true hdot]
      split <;> rfl
  rw [componentsOfPieces, List.filter_map, List.filter_filter]
  congr 2
  funext piece
  rw [Function.comp_apply, hhere, counts]
  cases piece <;> simp

/-- Pieces that all count are all of the components. -/
theorem map_toPiece_componentsOfPieces {pieces : List (List Char)}
    (h : ∀ piece ∈ pieces, piece ≠ [] ∧ piece ≠ ['.']) :
    (componentsOfPieces pieces).map Component.toPiece = pieces := by
  have hcounts : pieces.filter counts = pieces :=
    List.filter_eq_self.mpr fun piece hpiece => counts_iff.mpr (h piece hpiece)
  rw [componentsOfPieces_eq, hcounts, List.map_map]
  exact List.map_id'' Component.toPiece_ofPiece pieces

/-- A plain path is its own resolution. -/
theorem IsPlain.resolve_eq {p : Path} (h : p.IsPlain) (root : Path) : root.resolve p = p := by
  obtain ⟨habsolute, hpieces⟩ := h
  obtain ⟨rest, hrest⟩ := exists_eq_cons_of_isAbsolute habsolute
  have hsplit : Text.pieces '/' p.spelling.toList = [] :: Text.pieces '/' rest := by
    rw [hrest, Text.pieces, if_pos rfl]
  have hcomponents : p.components = .root :: componentsOfPieces (Text.pieces '/' rest) := by
    rw [components, if_pos habsolute, hsplit]
    rfl
  have hplain : (componentsOfPieces (Text.pieces '/' rest)).filter (· != .here)
      = componentsOfPieces (Text.pieces '/' rest) := by
    rw [componentsOfPieces, List.filter_filter]
    simp
  have hjoin : Text.join ['/'] ((componentsOfPieces (Text.pieces '/' rest)).map
      Component.toPiece) = rest := by
    rcases hpieces with hroot | hpieces
    · obtain rfl : rest = [] := by simpa [hroot] using hrest.symm
      rfl
    · rw [hsplit, List.tail_cons] at hpieces
      rw [map_toPiece_componentsOfPieces hpieces, Text.join_pieces]
  have hspelling : String.ofList ('/' :: rest) = p.spelling := by
    rw [← hrest, String.ofList_toList]
  rw [resolve, join, if_pos habsolute, hcomponents,
    List.filter_cons_of_pos (by decide), hplain, ofComponents, hjoin, hspelling]

end Path

end SourceRepair
