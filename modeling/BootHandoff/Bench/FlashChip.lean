/-
# A flash chip on the bench

The chip has bytes, a flash map, a container with files and stages, and faults
that can be turned on: it may refuse to open, show or deliver less than it is
asked for, and have stages that do not load.  It counts the loads and reads
made on it.  Of several entries for a name or an offset, the first one counts.
-/

import BootHandoff.Bench.Bank
import BootHandoff.Error
import BootHandoff.Flash.Region
import BootHandoff.Outcome

namespace BootHandoff
namespace Bench

open Flash

/-- A flash chip. -/
structure FlashChip where
  bytes : Bank
  areas : List (String × Region)
  files : List (String × Region)
  stagesAt : List (UInt32 × UInt64)
  namedStages : List (String × UInt64)
  brokenStages : List (String × FlashError)
  isOpen : Bool
  failOpen : Bool
  /-- The number of bytes that a mapping shows at most. -/
  mapLimit : Option Nat
  /-- The number of bytes that a read delivers at most. -/
  readLimit : Option Nat
  namedLoads : Nat
  offsetLoads : Nat
  reads : Nat
  deriving Inhabited

namespace FlashChip

/-- A chip with nothing on it but its bytes. -/
def ofBank (bytes : Bank) : FlashChip where
  bytes := bytes
  areas := []
  files := []
  stagesAt := []
  namedStages := []
  brokenStages := []
  isOpen := false
  failOpen := false
  mapLimit := none
  readLimit := none
  namedLoads := 0
  offsetLoads := 0
  reads := 0

/-- An erased chip. -/
def erased (size : Nat) : FlashChip := ofBank (Bank.blank size 0xff)

/-- The chip with one more area in its flash map. -/
def addArea (f : FlashChip) (name : String) (region : Region) : FlashChip :=
  { f with areas := f.areas ++ [(name, region)] }

/-- The chip with one more file in its container. -/
def addFile (f : FlashChip) (name : String) (region : Region) : FlashChip :=
  { f with files := f.files ++ [(name, region)] }

/-- The chip with one more stage at an offset. -/
def addStageAt (f : FlashChip) (offset : UInt32) (entry : UInt64) : FlashChip :=
  { f with stagesAt := f.stagesAt ++ [(offset, entry)] }

/-- The chip with one more stage in its container. -/
def addNamedStage (f : FlashChip) (name : String) (entry : UInt64) : FlashChip :=
  { f with namedStages := f.namedStages ++ [(name, entry)] }

/-- The chip with one more stage that does not load. -/
def addBrokenStage (f : FlashChip) (name : String) (e : FlashError) : FlashChip :=
  { f with brokenStages := f.brokenStages ++ [(name, e)] }

/-- Opens the chip. -/
def «open» (f : FlashChip) : Except FlashError Unit × FlashChip :=
  if f.failOpen then (.error .unopened, f) else (.ok (), { f with isOpen := true })

/-- Closes the chip. -/
def close (f : FlashChip) : FlashChip := { f with isOpen := false }

/-- The area of the flash map with a name. -/
def findArea (f : FlashChip) (name : String) : Option Region := f.areas.lookup name

/-- The file of the container with a name. -/
def locateFile (f : FlashChip) (name : String) : Except FlashError Region :=
  match f.files.lookup name with
  | some region => .ok region
  | none => .error .notFound

/-- Loads the stage with a name. -/
def loadStage (f : FlashChip) (name : String) : Except FlashError UInt64 × FlashChip :=
  let result := match f.brokenStages.lookup name, f.namedStages.lookup name with
    | some e, _ => .error e
    | none, some entry => .ok entry
    | none, none => .error .notFound
  (result, { f with namedLoads := f.namedLoads + 1 })

/-- Loads the stage at an offset. -/
def loadStageAt (f : FlashChip) (offset : UInt32) : Except FlashError UInt64 × FlashChip :=
  let result := match f.stagesAt.lookup offset with
    | some entry => .ok entry
    | none => .error .loadFailed
  (result, { f with offsetLoads := f.offsetLoads + 1 })

/-- `n`, or the limit if that is less. -/
def limited (limit : Option Nat) (n : Nat) : Nat := (limit.map (min n)).getD n

/-- Shows a range that lies wholly on the chip. -/
def map (f : FlashChip) (offset len : UInt32) : Except FlashError Bytes :=
  if offset.toNat + len.toNat ≤ f.bytes.size then
    .ok (f.bytes.read offset.toNat (limited f.mapLimit len.toNat))
  else .error (.invalidMap offset len)

/-- Copies over an area as many bytes as the chip has from an offset on. -/
def read {n : Nat} (f : FlashChip) (offset : UInt32) (area : Buffer n) :
    (UInt64 × Buffer n) × FlashChip :=
  let count := limited f.readLimit (min n (f.bytes.size - offset.toNat))
  ((UInt64.ofNat count, area.overwrite (f.bytes.read offset.toNat count)),
    { f with reads := f.reads + 1 })

/-- Writes bytes that have to lie wholly on the chip. -/
def write (f : FlashChip) (offset : UInt32) (bs : Bytes) : Except Halt FlashChip :=
  if offset.toNat + bs.length ≤ f.bytes.size then
    .ok { f with bytes := f.bytes.write offset.toNat bs }
  else .error .indexOutOfBounds

end FlashChip
end Bench
end BootHandoff
