/-
# Bounded waiting

Nothing sleeps at this stage: waiting is looking again and again, until what is
waited for is there or a timeout has passed.  After the timeout there is one
last look, in case the wait was held up between a look and the clock.

How often a wait looks depends on the clock, which may stand still, so a wait
is given the number of rounds it may take, and answers `none` if it is not over
by then.
-/

import BootHandoff.Error
import BootHandoff.Platform.Firmware
import BootHandoff.Wait.Stopwatch

namespace BootHandoff
namespace Wait

open Platform

section

variable {m : Type → Type} [Monad m]

/-- Looks for `ready` until the stopwatch has expired, for at most so many
rounds. -/
def poll (now : m UInt64) (ready : m Bool) (w : Stopwatch) :
    Nat → m (Option (Except Timeout Unit))
  | 0 => return none
  | rounds + 1 => do
    if ← ready then return some (.ok ())
    else if ← w.expired now then
      if ← ready then return some (.ok ())
      else return some (.error ⟨w.timeout⟩)
    else poll now ready w rounds

/-- Waits for `ready` for at most `timeout` microseconds. -/
def waitUntil (rounds : Nat) (now : m UInt64) (timeout : UInt64) (ready : m Bool) :
    m (Option (Except Timeout Unit)) := do
  poll now ready (← Stopwatch.begin now timeout) rounds

end

/-- Waits until every bit of `mask` is set in the register at `address`. -/
def waitForBits (rounds : Nat) (address : UInt64) (mask : UInt32) (timeout : UInt64) :
    Firmware (Option (Except Timeout Unit)) :=
  waitUntil rounds Firmware.now timeout do
    return (← Firmware.readRegister address) &&& mask == mask

end Wait
end BootHandoff
