/-
# A platform with nothing on it

Every query gets the answer of a part that is not there: an error where the
answer can be one, and otherwise nothing, or zero.  A bench for one part
answers the queries for that part and leaves the others to this.
-/

import BootHandoff.Platform.Query

namespace BootHandoff
namespace Bench

open Platform

/-- The answer of a part that is not there. -/
def absent : (q : Query) → q.Answer
  | .openFlash => .error .unopened
  | .closeFlash => ()
  | .findArea _ => none
  | .locateFile _ => .error .notFound
  | .loadStage _ => .error .notFound
  | .loadStageAt _ => .error .loadFailed
  | .mapFlash offset len => .error (.invalidMap offset len)
  | .readFlash _ _ area => (0, area)
  | .readRegister _ => 0
  | .writeRegister _ _ => ()
  | .memoryBelow4G => .error .memoryRange
  | .memoryAbove4G => .error .memoryRange
  | .carveout which => .error (.carveout which.number)
  | .developerMode => false
  | .window base len => .error (.window base len)
  | .store _ _ => ()
  | .productData _ => none
  | .clean _ => ()
  | .disableMmu => ()
  | .enterMonitor _ _ _ _ => ()
  | .train _ => (0, 0)
  | .adjustSecureOs _ entry => (.ok (), entry)
  | .extendMonitorParams params => (none, params)
  | .now => 0
  | .readNonVolatile => Buffer.zero 16
  | .saveNonVolatile _ => ()
  | .log _ _ => ()

end Bench
end BootHandoff
