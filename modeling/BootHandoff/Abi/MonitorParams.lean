/-
# What the secure monitor receives

The secure monitor is entered with the address of one structure, which points
at everything else: the entry points of the secure OS and of the payload, and
descriptions of the three images.  A pointer that is zero points at nothing.

| bytes | field |
| --- | --- |
| 0-7 | header |
| 8-15 | image of the secure monitor |
| 16-23 | entry point of the secure OS |
| 24-31 | image of the secure OS |
| 32-39 | entry point of the payload |
| 40-47 | image of the payload |
-/

import BootHandoff.Abi.Header

namespace BootHandoff
namespace Abi

/-- The structure whose address the secure monitor is entered with. -/
structure MonitorParams where
  header : ParamHeader
  monitorImage : UInt64
  secureOsEntry : UInt64
  secureOsImage : UInt64
  payloadEntry : UInt64
  payloadImage : UInt64
  deriving DecidableEq, Repr, Inhabited

namespace MonitorParams

/-- How the structure lies in memory. -/
def layout : Layout MonitorParams :=
  let L := Layout.u64
  (ParamHeader.layout.pair (L.pair (L.pair (L.pair (L.pair L))))).iso
    (fun (header, monitorImage, secureOsEntry, secureOsImage, payloadEntry, payloadImage) =>
      ⟨header, monitorImage, secureOsEntry, secureOsImage, payloadEntry, payloadImage⟩)
    (fun p => (p.header, p.monitorImage, p.secureOsEntry, p.secureOsImage, p.payloadEntry,
      p.payloadImage))

/-- The structure with its header and no pointers. -/
def fresh : MonitorParams := ⟨.describing layout .monitor version1 0, 0, 0, 0, 0, 0⟩

end MonitorParams
end Abi
end BootHandoff
