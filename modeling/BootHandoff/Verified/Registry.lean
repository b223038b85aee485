/-
# The registry of verified components

An earlier stage verifies images on the flash and leaves a record of those it
accepted: one slot per image, with its address on the flash and its size.  The
slots are zeroed before they are filled in, so a slot of size zero means "not
verified", and nothing else does.  The record itself may be missing.

| bytes | field |
| --- | --- |
| 0-11 | three words of flags and the selected firmware |
| 12-59 | six slots of two words, address and size |

What follows the slots belongs to somebody else and is not read.  The set of
slots is fixed when a board is built, so an index outside of it is a mistake
in the board's configuration and halts the boot.
-/

import BootHandoff.Layout
import BootHandoff.Outcome

namespace BootHandoff
namespace Verified

/-- One verified image: where it lies on the flash, and its size. -/
structure Component where
  address : UInt32
  size : UInt32
  deriving DecidableEq, Repr, Inhabited

namespace Component

/-- How a slot lies in memory. -/
def layout : Layout Component :=
  (Layout.u32.pair Layout.u32).iso (fun (address, size) => ⟨address, size⟩)
    (fun c => (c.address, c.size))

/-- An empty slot. -/
def absent : Component := ⟨0, 0⟩

/-- Whether the slot records an image. -/
def isPresent (c : Component) : Bool := c.size != 0

end Component

/-- The record that the verifying stage leaves behind. -/
structure Record where
  initFlags : UInt32
  outFlags : UInt32
  selectedFirmware : UInt32
  components : Vector Component 6
  deriving DecidableEq, Repr, Inhabited

namespace Record

/-- How the record lies in memory. -/
def layout : Layout Record :=
  (Layout.u32.pair (Layout.u32.pair (Layout.u32.pair (Component.layout.array 6)))).iso
    (fun (initFlags, outFlags, selectedFirmware, components) =>
      ⟨initFlags, outFlags, selectedFirmware, components⟩)
    (fun r => (r.initFlags, r.outFlags, r.selectedFirmware, r.components))

end Record

/-- A view of the record, which may not exist at all. -/
structure Registry where
  record : Option Record
  deriving DecidableEq, Repr, Inhabited

namespace Registry

/-- The registry of a boot without a record. -/
def unavailable : Registry := ⟨none⟩

/-- The registry read from the bytes of the record's region.  A region too
short for the record is as good as none. -/
def ofRegion (region : Option Bytes) : Registry := ⟨region.bind Record.layout.readFront?⟩

/-- The registry of a record with these in its first slots, and nothing else in
it. -/
def ofComponents (components : List Component) : Registry :=
  ⟨some ⟨0, 0, 0, Vector.ofFn fun i => components.getD i .absent⟩⟩

/-- Whether there is a record. -/
def isAvailable (r : Registry) : Bool := r.record.isSome

/-- The slot at an index, used or not, or `none` without a record. -/
def component (r : Registry) (index : UInt8) : Except Halt (Option Component) :=
  if h : index.toNat < 6 then .ok (r.record.map fun record => record.components[index.toNat])
  else .error .assertionFailed

/-- The verified image at an index, if there is one. -/
def verified (r : Registry) (index : UInt8) : Except Halt (Option Component) := do
  return (← r.component index).filter Component.isPresent

end Registry
end Verified
end BootHandoff
