/-
# Using the flash between opening and closing it

Code that needs the flash map or a mapping runs in a *session*: the flash is
opened first and closed again however the code ends, with a value, an error or
a halt.  A flash that does not open is not used and not closed.
-/

import BootHandoff.Platform.Action

namespace BootHandoff
namespace Flash

open Platform

/-- Runs `body` with the flash open.  `wrap` names the error of a flash that
does not open. -/
def session {m : Type → Type} [Monad m] [MonadLiftT Firmware m] {ε α : Type}
    (wrap : FlashError → ε) (body : ExceptT (Stop ε) m α) : ExceptT (Stop ε) m α := do
  accept wrap (← Firmware.openFlash)
  ExceptT.mk do
    let result ← body.run
    Firmware.closeFlash
    return result

end Flash
end BootHandoff
