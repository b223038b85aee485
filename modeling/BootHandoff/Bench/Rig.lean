/-
# The whole bench

Everything that a handoff touches, in one place, as a `Machine` for boot code.
The standard bench is a small board with an erased flash and zeroed memory over
its trusted carveout.
-/

import BootHandoff.Bench.Absent
import BootHandoff.Bench.Board
import BootHandoff.Bench.Dram
import BootHandoff.Bench.FlashChip
import BootHandoff.Board.Catalog
import BootHandoff.Platform.Firmware
import BootHandoff.Verified.Registry

namespace BootHandoff
namespace Bench

open Board Platform Verified

/-- Everything that a handoff touches. -/
structure Rig where
  flash : FlashChip
  registry : Registry
  soc : Soc
  registers : Registers
  productData : Option DataStore
  /-- What the processor was asked to do, in order. -/
  events : List CpuEvent
  dram : Dram
  boardCode : BoardCode
  /-- What the training code answers. -/
  trained : UInt64 × UInt64

namespace Rig

/-- The standard bench. -/
def standard : Rig where
  flash := .erased 0x100000
  registry := .unavailable
  soc := .small
  registers := ⟨[]⟩
  productData := none
  events := []
  dram := .zeroed 0x40000000 0x400000
  boardCode := ⟨none, none, [], none, none, none⟩
  trained := (0, 0)

/-- A board whose secure OS is copied, with one MiB for the secure monitor. -/
def config (verifiedBoot : Bool) : BootConfig where
  verifiedBoot := verifiedBoot
  monitor := monitorStage
  secureOs := some ⟨secureOsStage, .raw⟩
  monitorSizeMib := 1
  uart := .a
  training := none

/-- The bench with one more event. -/
def record (r : Rig) (event : CpuEvent) : Rig := { r with events := r.events ++ [event] }

/-- What the bench answers, and how it is then. -/
def respond : (q : Query) → Rig → q.Answer × Rig
  | .openFlash, r => let (a, f) := r.flash.open; (a, { r with flash := f })
  | .closeFlash, r => ((), { r with flash := r.flash.close })
  | .findArea name, r => (r.flash.findArea name, r)
  | .locateFile name, r => (r.flash.locateFile name, r)
  | .loadStage name, r => let (a, f) := r.flash.loadStage name; (a, { r with flash := f })
  | .loadStageAt offset, r => let (a, f) := r.flash.loadStageAt offset; (a, { r with flash := f })
  | .mapFlash offset len, r => (r.flash.map offset len, r)
  | .readFlash offset _ area, r =>
    let (a, f) := r.flash.read offset area
    (a, { r with flash := f })
  | .readRegister address, r => (r.registers.read address, r)
  | .writeRegister address value, r =>
    ((), { r with registers := r.registers.write address value })
  | .memoryBelow4G, r => (r.soc.below4G, r)
  | .memoryAbove4G, r => (r.soc.above4G, r)
  | .carveout which, r => (r.soc.carveout which, r)
  | .developerMode, r => (r.soc.developerMode, r)
  | .window base len, r => (r.dram.window base len, r)
  | .store base bytes, r => ((), { r with dram := r.dram.store base bytes })
  | .productData key, r => (r.productData.bind (·.find? key), r)
  | .clean block, r => ((), r.record (.clean block.address (UInt64.ofNat block.bytes.length)))
  | .disableMmu, r => ((), r.record .mmuOff)
  | .enterMonitor entry params platformParams _, r =>
    ((), r.record (.enter entry params platformParams))
  | .train _, r => (r.trained, r)
  | .adjustSecureOs _ entry, r => (r.boardCode.adjust entry, r)
  | .extendMonitorParams params, r => (r.boardCode.extend params, r)
  | q, r => (absent q, r)

/-- The bench as a platform for boot code. -/
def machine : Machine Rig := ⟨respond⟩

end Rig
end Bench
end BootHandoff
