/-
# Booting a board

A board boots by a handoff with its own configuration and a fresh addition of
its own.
-/

import BootHandoff.Board.Catalog
import BootHandoff.Handoff.Run

namespace BootHandoff
namespace Handoff

open Board Platform SecureOs Verified

/-- The addition that a board's secure OS needs, fresh, with its block at
`place`. -/
def Extension.fresh (place : UInt64) : Kernel → Extension
  | .none => .none
  | .tlk => .tlk place BootBlock.zero

/-- Hands over to the secure monitor of a board.  The board's own structures
lie at `places`, and its boot block, if it has one, at `blockPlace`. -/
def boot (decoder : KeyStore.Decoder) (board : Description) (places : Places)
    (blockPlace : UInt64) (registry : Registry) (payload : Payload) : Firmware Halt := do
  Firmware.log .info s!"ryuboot: handoff on {board.name}"
  let (h, _) ← (run decoder registry payload).run
    (Context.new board.config places (.fresh blockPlace board.kernel))
  return h

end Handoff
end BootHandoff
