/-
# The header of the Google Binary Block

The flash area `GBB` starts with a header that says, among other things, where
in the area the root key lies.

| bytes | field |
| --- | --- |
| 0-3 | signature `$GBB` |
| 4-5, 6-7 | major and minor version |
| 8-11, 12-15 | size of the header, flags |
| 16-23 | hardware id: offset, size |
| 24-31 | root key: offset, size |
| 32-39 | bitmaps: offset, size |
| 40-47 | recovery key: offset, size |
| 48-79 | digest of the hardware id |
| 80-127 | padding |
-/

import BootHandoff.Layout

namespace BootHandoff
namespace RootKey

/-- A range inside the block, from its start. -/
structure Extent where
  offset : UInt32
  size : UInt32
  deriving DecidableEq, Inhabited

namespace Extent

/-- How an extent lies in memory. -/
def layout : Layout Extent :=
  (Layout.u32.pair Layout.u32).iso (fun (offset, size) => ⟨offset, size⟩)
    (fun e => (e.offset, e.size))

end Extent

/-- The header of the block. -/
structure Header where
  signature : Buffer 4
  majorVersion : UInt16
  minorVersion : UInt16
  headerSize : UInt32
  flags : UInt32
  hardwareId : Extent
  rootKey : Extent
  bitmaps : Extent
  recoveryKey : Extent
  hardwareIdDigest : Buffer 32
  padding : Buffer 48
  deriving DecidableEq, Inhabited

namespace Header

/-- How the header lies in memory. -/
def layout : Layout Header :=
  ((Layout.area 4).pair (Layout.u16.pair (Layout.u16.pair (Layout.u32.pair (Layout.u32.pair
    (Extent.layout.pair (Extent.layout.pair (Extent.layout.pair (Extent.layout.pair
      ((Layout.area 32).pair (Layout.area 48))))))))))).iso
    (fun (signature, majorVersion, minorVersion, headerSize, flags, hardwareId, rootKey, bitmaps,
        recoveryKey, hardwareIdDigest, padding) =>
      ⟨signature, majorVersion, minorVersion, headerSize, flags, hardwareId, rootKey, bitmaps,
        recoveryKey, hardwareIdDigest, padding⟩)
    (fun h => (h.signature, h.majorVersion, h.minorVersion, h.headerSize, h.flags, h.hardwareId,
      h.rootKey, h.bitmaps, h.recoveryKey, h.hardwareIdDigest, h.padding))

end Header

/-- The bytes `$GBB`, which start every header. -/
def signature : Buffer 4 := ⟨[0x24, 0x47, 0x42, 0x42], rfl⟩

end RootKey
end BootHandoff
