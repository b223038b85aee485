/-
# The fuses that identify a chip

Eight fuse registers hold what was burned into the chip when it was made.  Each
has a place in the fuse block and a number of bits that count.

| fuse | offset | bits |
| --- | ---: | ---: |
| vendor code | `200` | 4 |
| fab code | `204` | 6 |
| lot code, high word | `208` | 32 |
| lot code, low word | `20c` | 28 |
| wafer | `210` | 6 |
| x coordinate | `214` | 9 |
| y coordinate | `218` | 9 |
| reserved for operations | `220` | 6 |

The registers read as fuses only while a bit of the clock controller makes them
visible.  Reading sets that bit if it has to, and then clears it again.
-/

import BootHandoff.Platform.Firmware

namespace BootHandoff
namespace ChipId

open Platform

/-- A fuse that takes part in the chip's identity. -/
inductive Fuse where
  | vendorCode
  | fabCode
  | lotCode0
  | lotCode1
  | waferId
  | xCoord
  | yCoord
  | opsReserved
  deriving DecidableEq, Repr, Inhabited

namespace Fuse

/-- The name of a fuse. -/
def name : Fuse → String
  | vendorCode => "VendorCode"
  | fabCode => "FabCode"
  | lotCode0 => "LotCode0"
  | lotCode1 => "LotCode1"
  | waferId => "WaferId"
  | xCoord => "XCoord"
  | yCoord => "YCoord"
  | opsReserved => "OpsReserved"

/-- Every fuse, in the order in which they are read. -/
def all : List Fuse :=
  [vendorCode, fabCode, lotCode0, lotCode1, waferId, xCoord, yCoord, opsReserved]

end Fuse

/-- Where a fuse is read, and the bits of it that count. -/
structure FuseRegister where
  /-- Its place in the fuse block. -/
  offset : UInt64
  mask : UInt32
  deriving DecidableEq, Repr

/-- The register of a fuse. -/
def Fuse.register : Fuse → FuseRegister
  | vendorCode => ⟨0x200, 0xf⟩
  | fabCode => ⟨0x204, 0x3f⟩
  | lotCode0 => ⟨0x208, 0xffffffff⟩
  | lotCode1 => ⟨0x20c, 0x0fffffff⟩
  | waferId => ⟨0x210, 0x3f⟩
  | xCoord => ⟨0x214, 0x1ff⟩
  | yCoord => ⟨0x218, 0x1ff⟩
  | opsReserved => ⟨0x220, 0x3f⟩

/-- The values of the fuses, each masked to the bits that count. -/
structure Fuses where
  vendorCode : UInt32
  fabCode : UInt32
  lotCode0 : UInt32
  lotCode1 : UInt32
  waferId : UInt32
  xCoord : UInt32
  yCoord : UInt32
  opsReserved : UInt32
  deriving DecidableEq, Repr, Inhabited

/-- The value of one fuse. -/
def Fuses.value (f : Fuses) : Fuse → UInt32
  | .vendorCode => f.vendorCode
  | .fabCode => f.fabCode
  | .lotCode0 => f.lotCode0
  | .lotCode1 => f.lotCode1
  | .waferId => f.waferId
  | .xCoord => f.xCoord
  | .yCoord => f.yCoord
  | .opsReserved => f.opsReserved

/-- Where the fuse block starts. -/
def fuseBlock : UInt64 := 0x7000f800

/-- The register of the clock controller that makes fuses visible. -/
def clockMisc : UInt64 := 0x60006048

/-- The place of the bit that does. -/
def visibleShift : UInt32 := 28

/-- The clock register's value with the bit set or cleared. -/
def withVisibility (visible : Bool) (value : UInt32) : UInt32 :=
  (value &&& ~~~(1 <<< visibleShift)) ||| ((if visible then 1 else 0) <<< visibleShift)

/-- Makes the fuse registers visible, or hides them. -/
def setVisibility (visible : Bool) : Firmware Unit :=
  Firmware.modifyRegister clockMisc (withVisibility visible)

/-- Reads one fuse. -/
def readFuse (f : Fuse) : Firmware UInt32 := do
  return (← Firmware.readRegister (fuseBlock + f.register.offset)) &&& f.register.mask

/-- Reads every fuse, while they are visible. -/
def readAll : Firmware Fuses := do
  let vendorCode ← readFuse .vendorCode
  let fabCode ← readFuse .fabCode
  let lotCode0 ← readFuse .lotCode0
  let lotCode1 ← readFuse .lotCode1
  let waferId ← readFuse .waferId
  let xCoord ← readFuse .xCoord
  let yCoord ← readFuse .yCoord
  let opsReserved ← readFuse .opsReserved
  return ⟨vendorCode, fabCode, lotCode0, lotCode1, waferId, xCoord, yCoord, opsReserved⟩

/-- Reads every fuse and leaves their visibility as it was. -/
def readFuses : Firmware Fuses := do
  let value ← Firmware.readRegister clockMisc
  if (value >>> visibleShift) &&& 1 = 1 then readAll
  else
    setVisibility true
    let fuses ← readAll
    setVisibility false
    return fuses

end ChipId
end BootHandoff
