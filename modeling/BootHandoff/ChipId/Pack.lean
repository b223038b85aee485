/-
# The unique id of a chip

The id has 128 bits, in four words with the low word first.  The fuses are laid
into it back to back:

| word | bits, from the top |
| --- | --- |
| 0 | low lot code 1-0, wafer, x coordinate, y coordinate, reserved |
| 1 | high lot code 5-0, low lot code 27-2 |
| 2 | fab code, high lot code 31-6 |
| 3 | 28 zeros, vendor code |

The layout is a list of pieces, each a run of bits of one fuse and its place in
the id.  A layout may name shifts that are no shifts of a 32-bit word, or a
word that the id does not have; placing such a piece halts.
-/

import BootHandoff.ChipId.Fuse
import BootHandoff.Platform.Action

namespace BootHandoff
namespace ChipId

open Platform

/-- A run of bits of a fuse, and its place in the id. -/
structure Piece where
  /-- The word of the id that it goes to. -/
  word : Nat
  source : Fuse
  /-- The lowest bit of the fuse that belongs to it. -/
  sourceShift : UInt32
  /-- The place of that bit in the word. -/
  destShift : UInt32
  width : UInt32
  deriving DecidableEq, Repr

/-- The pieces of the id. -/
def pieces : List Piece := [
  ⟨0, .opsReserved, 0, 0, 6⟩,
  ⟨0, .yCoord, 0, 6, 9⟩,
  ⟨0, .xCoord, 0, 15, 9⟩,
  ⟨0, .waferId, 0, 24, 6⟩,
  ⟨0, .lotCode1, 0, 30, 2⟩,
  ⟨1, .lotCode1, 2, 0, 26⟩,
  ⟨1, .lotCode0, 0, 26, 6⟩,
  ⟨2, .lotCode0, 6, 0, 26⟩,
  ⟨2, .fabCode, 0, 26, 6⟩,
  ⟨3, .vendorCode, 0, 0, 4⟩]

/-- The unique id: four words, the low one first. -/
abbrev Uid := Vector UInt32 4

/-- The word whose lowest `width` bits are set. -/
def lowBits (width : UInt32) : UInt32 := if width < 32 then (1 <<< width) - 1 else 0xffffffff

/-- Lays one piece over an id. -/
def Piece.place (fuses : Fuses) (uid : Uid) (p : Piece) : Except Halt Uid := do
  let bits ← orOverflow (Word.shiftRight32? (fuses.value p.source) p.sourceShift)
  let placed ← orOverflow (Word.shiftLeft32? (bits &&& lowBits p.width) p.destShift)
  if h : p.word < 4 then return uid.set p.word (uid[p.word] ||| placed)
  else .error .indexOutOfBounds

/-- The id that a layout makes of the fuses. -/
def pack (fuses : Fuses) (layout : List Piece) : Except Halt Uid :=
  layout.foldlM (Piece.place fuses) (Vector.replicate 4 0)

/-- Reads the chip's id. -/
def readUid {ε : Type} : Task ε Uid := do
  check (pack (← ChipId.readFuses) pieces)

end ChipId
end BootHandoff
