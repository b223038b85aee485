/-
# Finding the product data on the flash

The read-only product data lies in the flash area `RO_VPD`, from byte `600` of
the area on.  There the data may start at once and take the rest of the area,
or a header of sixteen bytes comes first that gives the size of the data behind
it:

| bytes | field |
| --- | --- |
| 0-11 | `fe`, `09`, `gVpdInfo`, `04`, `00` |
| 12-15 | size |

A header that claims more than the area has is not believed.
-/

import BootHandoff.Platform.Action

namespace BootHandoff
namespace ProductData

open Flash Platform

/-- The header in front of data of a given size. -/
structure SizeHeader where
  magic : Buffer 12
  size : UInt32
  deriving DecidableEq, Inhabited

/-- How the header lies on the flash. -/
def SizeHeader.layout : Layout SizeHeader :=
  ((Layout.area 12).pair Layout.u32).iso (fun (magic, size) => ⟨magic, size⟩)
    (fun h => (h.magic, h.size))

/-- The bytes that a header starts with. -/
def magic : Buffer 12 :=
  ⟨[0xfe, 0x09, 0x67, 0x56, 0x70, 0x64, 0x49, 0x6e, 0x66, 0x6f, 0x04, 0x00], rfl⟩

/-- The name of the data's area in the flash map. -/
def areaName : String := "RO_VPD"

/-- How far into its area the data starts. -/
def dataOffset : UInt32 := 0x600

/-- The size of a header. -/
def headerLen : UInt32 := 16

/-- The region that a header names, if the sixteen bytes are a header and the
region ends within the `size` bytes from `base` on. -/
def SizeHeader.region? (front : Buffer 16) (base size : UInt32) : Except Halt (Option Region) :=
  match layout.readFront? front.bytes with
  | none => .ok none
  | some header =>
    if header.magic = ProductData.magic ∧ header.size.toNat + headerLen.toNat ≤ size.toNat then do
      return some ⟨← orOverflow (Word.add32? base headerLen), header.size⟩
    else .ok none

/-- Where in an area the data lies, if the area is large enough for any. -/
def locate {ε : Type} (area : Region) : Task ε (Option Region) :=
  if area.len ≤ dataOffset + headerLen then return none
  else do
    let base ← check (orOverflow (Word.add32? area.offset dataOffset))
    let size := area.len - dataOffset
    let (count, front) ← Firmware.readFlash base (Buffer.zero 16)
    let named ← if count = 16 then check (SizeHeader.region? front base size) else pure none
    return some (named.getD ⟨base, size⟩)

/-- The data in the area `RO_VPD`.  A missing area and an area that cannot be
shown are logged and count as no data. -/
def fromFlash {ε : Type} : Task ε (Option Bytes) := do
  match ← Firmware.findArea areaName with
  | none =>
    Firmware.log .warn s!"no {areaName} area in flash map"
    return none
  | some area =>
    match ← locate area with
    | none => return none
    | some region =>
      match ← Firmware.mapFlash region.offset region.len with
      | .ok blob => return some blob
      | .error e =>
        Firmware.log .warn s!"RO VPD map failed: {e.message}"
        return none

end ProductData
end BootHandoff
