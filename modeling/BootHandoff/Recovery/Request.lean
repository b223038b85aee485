/-
# Requests for recovery

A request is a reason, stored in the non-volatile block for the next boot.
Nothing is stored for no reason, or while the embedded controller runs its
read-only image, since it then comes round to recovery by itself.
-/

import BootHandoff.Platform.Firmware
import BootHandoff.Recovery.Block

namespace BootHandoff
namespace Recovery

open Platform

/-- Stores a reason for recovery. -/
def store (reason : UInt8) : Firmware Unit := do
  Firmware.saveNonVolatile (NvBlock.withReason (← Firmware.readNonVolatile) reason)

/-- Requests recovery, and returns whether anything was stored. -/
def request (reason : UInt8) (controllerReadOnly : Bool) : Firmware Bool :=
  if reason = 0 ∨ controllerReadOnly then return false
  else do
    Firmware.log .info s!"saving recovery reason {Text.hexPadded 2 reason.toNat}"
    store reason
    return true

end Recovery
end BootHandoff
