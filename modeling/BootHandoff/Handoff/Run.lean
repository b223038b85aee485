/-
# The handoff

The handoff prepares everything, turns the cache and the MMU off, and jumps
into the secure monitor.  There is no way back: a preparation that fails is
fatal, and so is a secure monitor that returns.  Every run that comes back to
its caller has therefore ended in a halt.
-/

import BootHandoff.Handoff.Prepare

namespace BootHandoff
namespace Handoff

open Platform Verified

/-- Gives up with a message, which is logged first. -/
def die (text : String) : Firmware Halt := do
  Firmware.log .error text
  return .died text

/-- Turns the MMU off and jumps.  It is back when the secure monitor
is. -/
def transfer {ε : Type} (jump : Jump) : Action Context ε Unit := do
  enter .disableMmu
  Firmware.disableMmu
  enter .transferControl
  Firmware.enterMonitor jump.entry jump.params jump.platformParams (← get).memory

/-- Performs the whole handoff. -/
def run (decoder : KeyStore.Decoder) (registry : Registry) (payload : Payload) :
    StateT Context Firmware Halt := do
  let handoff : Action Context BootError Unit := do transfer (← prepare decoder registry payload)
  match ← handoff.run with
  | .ok () => die "BL31 returned!"
  | .error (.error e) => die s!"handoff failed in {(← get).phase.name}: {e.message}"
  | .error (.halt h) => return h

end Handoff
end BootHandoff
