/-
# Benches for single parts

Three small platforms: a non-volatile block that is read and saved, a status
register that goes through given values while a clock runs, and memory that is
reached through its own addresses, in which registers are words.
-/

import BootHandoff.Bench.Absent
import BootHandoff.Bench.Clock
import BootHandoff.Bench.Dram
import BootHandoff.Memory.Identity
import BootHandoff.Platform.Firmware
import BootHandoff.Recovery.Block

namespace BootHandoff
namespace Bench

open Platform

/-- A platform with a non-volatile block, its state. -/
def nonVolatile : Machine Recovery.NvBlock where
  respond
    | .readNonVolatile, b => (b, b)
    | .saveNonVolatile b, _ => ((), b)
    | q, b => (absent q, b)

/-- A status register and a clock. -/
structure StatusRegister where
  address : UInt64
  values : Script UInt32
  clock : ScriptedClock

/-- A platform with a status register and a clock. -/
def statusRegister : Machine StatusRegister where
  respond
    | .now, s => let clock := s.clock.advance; (clock.last, { s with clock := clock })
    | .readRegister address, s =>
      if address = s.address then
        let (value, values) := s.values.next 0
        (value, { s with values := values })
      else (0, s)
    | q, s => (absent q, s)

/-- The word at an address of memory. -/
def wordAt (d : Dram) (address : UInt64) : UInt32 := Layout.u32.read (d.held address 4)

/-- A platform with memory that is reached through its own addresses. -/
def identityMemory : Machine Dram where
  respond
    | .readRegister address, d => (wordAt d address, d)
    | .writeRegister address value, d => ((), d.store address (Layout.u32.write value))
    | .window base len, d =>
      ((Memory.identityWindow base len).map fun _ => d.held base len.toNat, d)
    | .store base bytes, d => ((), d.store base bytes)
    | q, d => (absent q, d)

end Bench
end BootHandoff
