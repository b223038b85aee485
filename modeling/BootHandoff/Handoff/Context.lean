/-
# The state of a handoff

A handoff owns the three structures that the secure monitor will read: its own
parameters, and the entry points of the secure OS and of the payload.  They
have fixed addresses, since the parameters point at the entry points and the
secure monitor is told where the parameters are.

What a board adds to a handoff is its `Extension`: nothing, the boot block of
the Trusted Little Kernel, or code of its own that the platform runs.
-/

import BootHandoff.Handoff.Phase
import BootHandoff.SecureOs.Fill

namespace BootHandoff
namespace Handoff

open Abi Board Platform SecureOs

/-- What a board adds to a handoff. -/
inductive Extension where
  /-- Nothing. -/
  | none
  /-- The boot block of the Trusted Little Kernel, with its address. -/
  | tlk (place : UInt64) (block : BootBlock)
  /-- Code of the board's own. -/
  | custom

/-- The addresses of the structures that the secure monitor will read. -/
structure Places where
  monitorParams : UInt64
  secureOsEntry : UInt64
  payloadEntry : UInt64
  deriving DecidableEq, Repr, Inhabited

/-- The state of one handoff. -/
structure Context where
  config : BootConfig
  places : Places
  extension : Extension
  phase : Phase
  monitorParams : MonitorParams
  secureOsEntry : EntryPoint
  payloadEntry : EntryPoint

namespace Context

/-- A handoff that has not begun. -/
def new (config : BootConfig) (places : Places) (extension : Extension) : Context where
  config := config
  places := places
  extension := extension
  phase := .init
  monitorParams := .fresh
  secureOsEntry := .zero
  payloadEntry := .zero

/-- The blocks that the board's addition keeps in memory. -/
def extensionBlocks (c : Context) : List Block :=
  match c.extension with
  | .tlk place block => [⟨place, BootBlock.layout.write block⟩]
  | _ => []

/-- The structures of a handoff as they lie in memory. -/
def memory (c : Context) : List Block :=
  c.extensionBlocks ++ [
    ⟨c.places.secureOsEntry, EntryPoint.layout.write c.secureOsEntry⟩,
    ⟨c.places.monitorParams, MonitorParams.layout.write c.monitorParams⟩,
    ⟨c.places.payloadEntry, EntryPoint.layout.write c.payloadEntry⟩]

end Context

/-- The payload that runs in the normal world; it is in memory already. -/
structure Payload where
  entry : UInt64
  arg : UInt64
  spsr : UInt32
  deriving DecidableEq, Repr, Inhabited

/-- What the final jump needs: where to enter the secure monitor, and the two
addresses it is entered with. -/
structure Jump where
  entry : UInt64
  params : UInt64
  platformParams : UInt64
  deriving DecidableEq, Repr, Inhabited

end Handoff
end BootHandoff
