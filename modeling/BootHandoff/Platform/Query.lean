/-
# What the boot code asks of the platform

The boot code never touches hardware.  Whatever it needs, from a byte on the
flash to the final jump, it asks of the platform as a `Query`, and the
platform's `Answer` is all it learns.  A sequence of queries with their
answers is therefore a complete account of a run.

| part of the platform | queries |
| --- | --- |
| boot flash | `openFlash`, `closeFlash`, `findArea`, `mapFlash`, `readFlash` |
| container on the flash | `locateFile`, `loadStage`, `loadStageAt` |
| registers | `readRegister`, `writeRegister` |
| drivers | `memoryBelow4G`, `memoryAbove4G`, `carveout`, `developerMode` |
| memory | `window`, `store` |
| product data | `productData` |
| processor | `clean`, `disableMmu`, `enterMonitor` |
| vendor and board code | `train`, `adjustSecureOs`, `extendMonitorParams` |
| clock, non-volatile block, log | `now`, `readNonVolatile`, `saveNonVolatile`, `log` |
-/

import BootHandoff.Abi.EntryPoint
import BootHandoff.Abi.MonitorParams
import BootHandoff.Board.Config
import BootHandoff.Error
import BootHandoff.Flash.Region
import BootHandoff.Memory.MibRange

namespace BootHandoff
namespace Platform

/-- How much a line of the log matters. -/
inductive Level where
  | error
  | warn
  | info
  | debug
  | trace
  deriving DecidableEq, Repr, Inhabited

namespace Level

/-- The name of a level in the log. -/
def name : Level → String
  | error => "ERROR"
  | warn => "WARN"
  | info => "INFO"
  | debug => "DEBUG"
  | trace => "TRACE"

/-- Every level, the most important first. -/
def all : List Level := [error, warn, info, debug, trace]

end Level

/-- A structure in memory, as another processor state would find it: its
address and the bytes there. -/
structure Block where
  address : UInt64
  bytes : Bytes
  deriving DecidableEq, Repr, Inhabited

/-- One thing asked of the platform. -/
inductive Query where
  /-- Make the flash ready for use. -/
  | openFlash
  /-- Be done with the flash. -/
  | closeFlash
  /-- The area of the flash map with this name. -/
  | findArea (name : String)
  /-- Where the container keeps the file of this name. -/
  | locateFile (name : String)
  /-- Load the container's stage of this name; the answer is its entry. -/
  | loadStage (name : String)
  /-- Load the stage whose container entry starts at this offset. -/
  | loadStageAt (offset : UInt32)
  /-- Show `len` bytes of the flash. -/
  | mapFlash (offset len : UInt32)
  /-- Copy from the flash over a lent area.  The answer is the number of bytes
  that arrived, and what the area holds now. -/
  | readFlash (offset : UInt32) (size : Nat) (area : Buffer size)
  | readRegister (address : UInt64)
  | writeRegister (address : UInt64) (value : UInt32)
  /-- The memory below 4 GiB. -/
  | memoryBelow4G
  /-- The memory above 4 GiB, if there is any. -/
  | memoryAbove4G
  | carveout (which : Memory.Carveout)
  /-- Whether the device is unlocked for development. -/
  | developerMode
  /-- Access to `len` bytes of physical memory; the answer is what they hold. -/
  | window (base len : UInt64)
  /-- New contents for memory that a window gave access to. -/
  | store (base : UInt64) (bytes : Bytes)
  /-- The value of a key in the read-only product data, if there is one. -/
  | productData (key : String)
  /-- Write a structure out of the data cache. -/
  | clean (block : Block)
  /-- Clean the whole data cache, then turn it and the MMU off. -/
  | disableMmu
  /-- Jump into the secure monitor with two addresses in its registers, while
  memory holds these blocks.  An answer means that it came back. -/
  | enterMonitor (entry params platformParams : UInt64) (memory : List Block)
  /-- Run the memory training code; the answer is the address and the size of
  the table it made. -/
  | train (entry : UInt64)
  /-- Let the board's own code adjust the entry point of the secure OS. -/
  | adjustSecureOs (config : Board.BootConfig) (entry : Abi.EntryPoint)
  /-- Let the board's own code add to what the secure monitor receives; the
  answer also has the address of an extra structure, if there is one. -/
  | extendMonitorParams (params : Abi.MonitorParams)
  /-- The free-running clock, in microseconds. -/
  | now
  | readNonVolatile
  | saveNonVolatile (block : Buffer 16)
  | log (level : Level) (text : String)

/-- The type of the platform's answer to a query. -/
@[reducible] def Query.Answer : Query → Type
  | .openFlash => Except FlashError Unit
  | .closeFlash => Unit
  | .findArea _ => Option Flash.Region
  | .locateFile _ => Except FlashError Flash.Region
  | .loadStage _ => Except FlashError UInt64
  | .loadStageAt _ => Except FlashError UInt64
  | .mapFlash _ _ => Except FlashError Bytes
  | .readFlash _ size _ => UInt64 × Buffer size
  | .readRegister _ => UInt32
  | .writeRegister _ _ => Unit
  | .memoryBelow4G => Except DriverError Memory.MibRange
  | .memoryAbove4G => Except DriverError (Option Memory.MibRange)
  | .carveout _ => Except DriverError Memory.MibRange
  | .developerMode => Bool
  | .window _ _ => Except DriverError Bytes
  | .store _ _ => Unit
  | .productData _ => Option Bytes
  | .clean _ => Unit
  | .disableMmu => Unit
  | .enterMonitor _ _ _ _ => Unit
  | .train _ => UInt64 × UInt64
  | .adjustSecureOs _ _ => Except BootError Unit × Abi.EntryPoint
  | .extendMonitorParams _ => Option UInt64 × Abi.MonitorParams
  | .now => UInt64
  | .readNonVolatile => Buffer 16
  | .saveNonVolatile _ => Unit
  | .log _ _ => Unit

end Platform
end BootHandoff
