import SourceRepair.Proofs.Path.Resolve

/-!
# Spellings of one path

Seen from an absolute root, all paths whose pieces agree after joining, up to empty pieces and `.`,
resolve to one spelling, which is plain (`isPlain_resolve`, `plainPieces_resolve`). A `..` is a
piece like any other: it is not taken back against the piece in front of it.
-/

namespace SourceRepair

namespace Path

variable {root p q : Path}

/-- The pieces of a path that count. -/
def plainPieces (p : Path) : List (List Char) :=
  (Text.pieces '/' p.spelling.toList).filter counts

/-- The plain spelling of an absolute path of some pieces. -/
def ofPlainPieces (pieces : List (List Char)) : Path :=
  ⟨String.ofList ('/' :: Text.join ['/'] pieces)⟩

theorem slash_not_mem_of_mem_plainPieces {piece : List Char} (h : piece ∈ p.plainPieces) :
    '/' ∉ piece :=
  Text.not_mem_of_mem_pieces (List.mem_filter.mp h).1

theorem counts_of_mem_plainPieces {piece : List Char} (h : piece ∈ p.plainPieces) :
    counts piece = true :=
  (List.mem_filter.mp h).2

/-- The components of an absolute path are the root and its plain pieces. -/
theorem components_of_isAbsolute (h : p.isAbsolute = true) :
    p.components = .root :: p.plainPieces.map Component.ofPiece := by
  rw [components, if_pos h, componentsOfPieces_eq]
  rfl

/-- Absolute paths have the same components when they have the same plain pieces. -/
theorem components_eq_iff (hp : p.isAbsolute = true) (hq : q.isAbsolute = true) :
    p.components = q.components ↔ p.plainPieces = q.plainPieces := by
  have hinjective : Function.Injective Component.ofPiece :=
    Function.LeftInverse.injective Component.toPiece_ofPiece
  rw [components_of_isAbsolute hp, components_of_isAbsolute hq, List.cons_inj_right]
  exact hinjective.list_map.eq_iff

/-- Where a path is spelled plainly, its pieces are found again. -/
theorem plainPieces_ofPlainPieces {pieces : List (List Char)}
    (hslash : ∀ piece ∈ pieces, '/' ∉ piece)
    (hcounts : ∀ piece ∈ pieces, counts piece = true) :
    (ofPlainPieces pieces).plainPieces = pieces := by
  rw [plainPieces, ofPlainPieces, String.toList_ofList, Text.pieces, if_pos rfl,
    List.filter_cons_of_neg (by decide)]
  by_cases hne : pieces = []
  · subst hne
    rfl
  · rw [Text.pieces_join hne hslash]
    exact List.filter_eq_self.mpr hcounts

theorem isPlain_ofPlainPieces {pieces : List (List Char)} (hslash : ∀ piece ∈ pieces, '/' ∉ piece)
    (hcounts : ∀ piece ∈ pieces, counts piece = true) : (ofPlainPieces pieces).IsPlain := by
  refine ⟨by simp [isAbsolute, ofPlainPieces], ?_⟩
  by_cases hne : pieces = []
  · subst hne
    exact .inl rfl
  · right
    rw [ofPlainPieces, String.toList_ofList, Text.pieces, if_pos rfl, List.tail_cons,
      Text.pieces_join hne hslash]
    exact fun piece hpiece => counts_iff.mp (hcounts piece hpiece)

/-! ## Resolving -/

/-- What is seen from an absolute path is absolute. -/
theorem isAbsolute_join (h : root.isAbsolute = true) (p : Path) :
    (root.join p).isAbsolute = true := by
  obtain ⟨rest, hrest⟩ := exists_eq_cons_of_isAbsolute h
  unfold join
  split
  · assumption
  · split
    · rename_i hlast
      rw [hrest] at hlast
      exact absurd hlast (by simp)
    · simp [isAbsolute, hrest]
    · simp [isAbsolute, hrest]

/-- A path is resolved to the plain spelling of its pieces as seen from the root. -/
theorem resolve_eq_ofPlainPieces (h : root.isAbsolute = true) (p : Path) :
    root.resolve p = ofPlainPieces (root.join p).plainPieces := by
  have hkept : ∀ pieces : List (List Char),
      ((pieces.filter counts).map Component.ofPiece).filter (· != .here)
        = (pieces.filter counts).map Component.ofPiece := by
    intro pieces
    rw [← componentsOfPieces_eq, componentsOfPieces, List.filter_filter]
    simp
  rw [resolve, components_of_isAbsolute (isAbsolute_join h p), List.filter_cons_of_pos (by decide),
    plainPieces, hkept, ofComponents, List.map_map]
  exact congrArg ofPlainPieces (List.map_id'' Component.toPiece_ofPiece _)

/-- A path seen from an absolute root resolves to a plain one. -/
theorem isPlain_resolve (h : root.isAbsolute = true) (p : Path) : (root.resolve p).IsPlain := by
  rw [resolve_eq_ofPlainPieces h]
  exact isPlain_ofPlainPieces (fun _ => slash_not_mem_of_mem_plainPieces)
    fun _ => counts_of_mem_plainPieces

/-- Resolving keeps the pieces that count. -/
theorem plainPieces_resolve (h : root.isAbsolute = true) (p : Path) :
    (root.resolve p).plainPieces = (root.join p).plainPieces := by
  rw [resolve_eq_ofPlainPieces h]
  exact plainPieces_ofPlainPieces (fun _ => slash_not_mem_of_mem_plainPieces)
    fun _ => counts_of_mem_plainPieces

/-- Two paths resolve to the same components when they have the same pieces seen from the root. -/
theorem components_resolve_eq_iff (h : root.isAbsolute = true) (p q : Path) :
    (root.resolve p).components = (root.resolve q).components ↔
      (root.join p).plainPieces = (root.join q).plainPieces := by
  rw [components_eq_iff (isPlain_resolve h p).1 (isPlain_resolve h q).1, plainPieces_resolve h,
    plainPieces_resolve h]

end Path

end SourceRepair
