/-
# Memory training

Training code comes from the vendor as a blob.  It is copied to a fixed
address, run there, and answers with the address and the size of its table,
which is copied to a buffer of the caller.  Nothing the blob answers is
believed unchecked: the size has to be that of a table and fit the buffer, and
the address has to be memory.
-/

import BootHandoff.Image.Copy
import BootHandoff.Training.Table

namespace BootHandoff
namespace Training

open Board Flash Platform Verified

/-- Why there is no table. -/
inductive Error where
  /-- The board has no training code. -/
  | notConfigured
  | load (e : LoadError)
  | driver (e : DriverError)
  /-- The code is larger than its place. -/
  | tooLarge (size max : UInt64)
  /-- The code answered with a size that no table has. -/
  | invalidTableSize (size : UInt64)
  /-- The buffer has no room for the table. -/
  | noRoom (size : UInt64)
  deriving DecidableEq, Repr

def Error.label : Error → String
  | .notConfigured => "NotConfigured"
  | .load e => "Load." ++ e.label
  | .driver e => "Driver." ++ e.label
  | .tooLarge .. => "TooLarge"
  | .invalidTableSize _ => "InvalidTableSize"
  | .noRoom _ => "NoRoom"

def Error.message : Error → String
  | .notConfigured => "board has no MTC"
  | .load e => e.message
  | .driver e => e.message
  | .tooLarge size max =>
    "MTC of " ++ Text.hex size.toNat ++ " bytes exceeds its " ++ Text.hex max.toNat ++
      " byte region"
  | .invalidTableSize size => "MTC training table size " ++ Text.hex size.toNat ++ " is invalid"
  | .noRoom size => "no room for " ++ Text.hex size.toNat ++ " byte training table"

/-- Finds the training code, which has to fit its place. -/
def locateCode (config : BootConfig) (registry : Registry) (code : TrainingConfig) :
    Task Error Region := do
  let region ← (Image.locate config registry code.stage).widen Error.load
  let len := region.len.toUInt64
  if len ≤ code.maxSize then return region else fail (Error.tooLarge len code.maxSize)

/-- Copies the training code to its place. -/
def copyCode (code : TrainingConfig) (region : Region) : Task Error Unit := do
  let len := region.len.toUInt64
  let held ← accept Error.driver (← Firmware.window code.loadAddress len)
  match ← ((Image.copyToMemory region code.loadAddress held).run : Firmware _) with
  | .ok () =>
    Firmware.log .info <| s!"MTC: {len.toNat} bytes loaded from offset " ++
      s!"{Text.hex region.offset.toNat} @ {Text.hex code.loadAddress.toNat}"
  | .error (.error e) =>
    Firmware.log .error s!"MTC read failed: {e.message}"
    fail (Error.load e)
  | .error (.halt h) => halt h

/-- Runs the training code and returns the address and the size of its
table. -/
def runCode (code : TrainingConfig) : Task Error (UInt64 × UInt64) := do
  let (source, size) ← Firmware.train code.loadAddress
  if size.toNat = 0 ∨ maxTableSize < size.toNat then
    Firmware.log .error "MTC training table size is invalid"
    fail (Error.invalidTableSize size)
  else
    Firmware.log .info <| s!"MTC: Done. Entries size {Text.hex size.toNat} located at " ++
      Text.hex source.toNat
    return (source, size)

/-- Copies the table to the front of the buffer at hand, which lies at
`place`. -/
def copyTable {n : Nat} (place source size : UInt64) : Action (Buffer n) Error Table := do
  if size.toNat ≤ n then
    let table ← accept Error.driver (← Firmware.window source size)
    if table.length = size.toNat then
      modify fun buf => buf.overwrite table
      Firmware.log .info <| s!"MTC: Copied {Text.hex size.toNat} bytes from " ++
        s!"{Text.hex source.toNat} to {Text.hex place.toNat}"
      return ⟨place, size⟩
    else halt .lengthMismatch
  else fail (Error.noRoom size)

/-- Trains the memory and copies the table to the buffer at hand, which lies
at `place`. -/
def run {n : Nat} (config : BootConfig) (registry : Registry) (place : UInt64) :
    Action (Buffer n) Error Table := do
  match config.training with
  | none => fail Error.notConfigured
  | some code =>
    let region ← locateCode config registry code
    copyCode code region
    let (source, size) ← runCode code
    copyTable place source size

/-- Training code as it is called in place: it is given the contents of a slot
for the table's address, and leaves new contents and the table's size. -/
abbrev Blob := UInt64 → UInt64 × UInt64

/-- Calls training code with an empty slot and returns the address and the
size of its table. -/
def callInPlace (blob : Blob) : UInt64 × UInt64 := blob 0

end Training
end BootHandoff
