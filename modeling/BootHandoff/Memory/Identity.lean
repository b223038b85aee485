/-
# Memory reached through its own addresses

Without an MMU an address is the place itself.  A window is granted anywhere,
except at address zero or where its end is no address.
-/

import BootHandoff.Error
import BootHandoff.Word

namespace BootHandoff
namespace Memory

/-- Access to `len` bytes at an address; the answer is the window's length. -/
def identityWindow (base len : UInt64) : Except DriverError UInt64 :=
  if base = 0 ∨ (Word.add64? base len).isNone then .error (.window base len) else .ok len

end Memory
end BootHandoff
