/-
# Packing the chip's id does not halt

A piece is placed by two shifts and an index.  A piece whose shifts are shifts
of a 32-bit word, and whose word the id has, `Fits`, and placing it does not
halt; so a layout of such pieces packs any fuses.  The layout of the chip's own
id is one.
-/

import BootHandoff.ChipId.Pack

namespace BootHandoff
namespace ChipId

variable {layout : List Piece}

/-- The shifts of a piece are shifts of a 32-bit word, and the id has its
word. -/
structure Piece.Fits (p : Piece) : Prop where
  source : p.sourceShift < 32
  dest : p.destShift < 32
  word : p.word < 4

instance (p : Piece) : Decidable p.Fits :=
  decidable_of_iff (p.sourceShift < 32 ∧ p.destShift < 32 ∧ p.word < 4)
    ⟨fun ⟨hsource, hdest, hword⟩ => ⟨hsource, hdest, hword⟩,
      fun h => ⟨h.source, h.dest, h.word⟩⟩

/-- The bits that a piece lays over its word. -/
def Piece.cut (fuses : Fuses) (p : Piece) : UInt32 :=
  (fuses.value p.source >>> p.sourceShift &&& lowBits p.width) <<< p.destShift

/-- Placing a piece that fits lays its bits over its word. -/
theorem Piece.Fits.place_eq_ok {p : Piece} (h : p.Fits) (hword : p.word < 4) (fuses : Fuses)
    (uid : Uid) : p.place fuses uid = .ok (uid.set p.word (uid[p.word] ||| p.cut fuses)) := by
  have hbits : Word.shiftRight32? (fuses.value p.source) p.sourceShift =
      some (fuses.value p.source >>> p.sourceShift) := if_pos h.source
  have hplaced : ∀ bits, Word.shiftLeft32? bits p.destShift = some (bits <<< p.destShift) :=
    fun bits => if_pos h.dest
  unfold Piece.place
  rw [hbits]
  simp only [orOverflow, hplaced, hword]
  rfl

theorem Piece.Fits.exists_place_eq_ok {p : Piece} (h : p.Fits) (fuses : Fuses) (uid : Uid) :
    ∃ placed, p.place fuses uid = .ok placed := ⟨_, h.place_eq_ok h.word fuses uid⟩

/-- **A layout of pieces that fit packs any fuses.** -/
theorem exists_pack_eq_ok (h : ∀ p ∈ layout, p.Fits) (fuses : Fuses) :
    ∃ uid, pack fuses layout = .ok uid := by
  unfold pack
  generalize (Vector.replicate 4 0 : Uid) = uid
  induction layout generalizing uid with
  | nil => exact ⟨uid, rfl⟩
  | cons p rest ih =>
    obtain ⟨hp, hrest⟩ := List.forall_mem_cons.1 h
    obtain ⟨placed, hplaced⟩ := hp.exists_place_eq_ok fuses uid
    rw [List.foldlM_cons, hplaced]
    exact ih hrest placed

/-- The pieces of the chip's id fit. -/
theorem fits_of_mem_pieces : ∀ p ∈ pieces, p.Fits := by decide

end ChipId
end BootHandoff
