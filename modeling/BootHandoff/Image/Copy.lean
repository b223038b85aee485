/-
# Copying the bytes of an image

Some images are copied rather than loaded: their bytes are found on the flash,
in the registry's slot or in the container by the same rule as for loading, and
read into memory as they are.  Fewer bytes than the image has are an error, but
those that arrived stay where they were read to.
-/

import BootHandoff.Platform.Action
import BootHandoff.Verified.Registry

namespace BootHandoff
namespace Image

open Board Flash Platform Verified

/-- Finds the bytes of an image in the container. -/
def locateInContainer (stage : StageSpec) : Task LoadError Region := do
  Firmware.log .info s!"Looking for {stage.name}"
  match ← Firmware.locateFile stage.name with
  | .ok region => return region
  | .error e =>
    Firmware.log .warn s!"{stage.name} not located in container: {e.message}"
    fail (.notFound stage.name)

/-- Finds the bytes of an image on the flash. -/
def locate (config : BootConfig) (registry : Registry) (stage : StageSpec) :
    Task LoadError Region :=
  if config.verifiedBoot then do
    match ← check (registry.verified stage.index) with
    | some c => return ⟨c.address, c.size⟩
    | none =>
      match stage.fallback with
      | .forbidden => fail (.verificationRequired stage.name)
      | .container => locateInContainer stage
  else locateInContainer stage

/-- Reads a region to the front of the area at hand, which has to be large
enough for it. -/
def readRegion {n : Nat} (region : Region) : Action (Buffer n) LoadError Unit := do
  let area ← get
  if region.len.toNat ≤ n then
    let (count, front) ←
      Firmware.readFlash region.offset (Buffer.ofBytes (area.bytes.take region.len.toNat))
    set (area.overwrite front.bytes)
    if count = region.len.toUInt64 then return ()
    else fail (.shortRead region.len.toUInt64 count)
  else halt .indexOutOfBounds

/-- Reads a region into the memory at `base`, which holds `held` and was
granted to the caller. -/
def copyToMemory (region : Region) (base : UInt64) (held : Bytes) : Task LoadError Unit := do
  let (result, area) ← (readRegion region).on (Buffer.ofBytes held)
  Firmware.store base (area.bytes.take region.len.toNat)
  settle result

end Image
end BootHandoff
