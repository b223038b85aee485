/-
# Loading the image of a stage

With verified boot, the registry's slot for the stage is tried first.  A
missing record, an empty slot and a slot whose image does not load all mean the
same: there is nothing verified to boot.  The container is then asked by name,
unless the stage forbids it.  Without verified boot the registry is not looked
at.
-/

import BootHandoff.Platform.Action
import BootHandoff.Verified.Registry

namespace BootHandoff
namespace Image

open Board Platform Verified

/-- Where a loaded image came from. -/
inductive Source where
  /-- From a slot of the registry, with its address and size. -/
  | verified (address size : UInt32)
  /-- From the container by name, unverified. -/
  | container
  deriving DecidableEq, Repr

/-- The source of an image in words. -/
def Source.describe : Source → String
  | .verified address size =>
    "Verified \x7b address: " ++ toString address.toNat ++ ", size: " ++ toString size.toNat ++
      " \x7d"
  | .container => "Container"

/-- An image in memory, ready to be entered. -/
structure Loaded where
  entry : UInt64
  source : Source
  deriving DecidableEq, Repr

/-- Loads the image in a slot of the registry.  An image that does not load is
no better than none. -/
def loadComponent (stage : StageSpec) (c : Component) : Firmware (Option Loaded) := do
  match ← Firmware.loadStageAt c.address with
  | .ok entry =>
    Firmware.log .info <| s!"Loaded {c.size.toNat} bytes verified {stage.name} from " ++
      s!"{Text.hexPadded 8 c.address.toNat} to EP {Text.hex entry.toNat}"
    return some ⟨entry, .verified c.address c.size⟩
  | .error e =>
    Firmware.log .warn <| s!"verified {stage.name} at {Text.hexPadded 8 c.address.toNat} " ++
      s!"failed to load: {e.message}"
    return none

/-- Loads the verified image of a stage, if there is one that loads. -/
def loadVerified (registry : Registry) (stage : StageSpec) : Task LoadError (Option Loaded) := do
  match ← check (registry.verified stage.index) with
  | none => return none
  | some c => loadComponent stage c

/-- Loads the image of a stage from the container. -/
def loadFromContainer (stage : StageSpec) : Task LoadError Loaded := do
  match ← Firmware.loadStage stage.name with
  | .ok entry =>
    Firmware.log .info s!"Loaded {stage.name} from container to EP {Text.hex entry.toNat}"
    return ⟨entry, .container⟩
  | .error e =>
    Firmware.log .warn s!"{stage.name} failed to load from container: {e.message}"
    fail (.notFound stage.name)

/-- Loads the image of a stage. -/
def load (config : BootConfig) (registry : Registry) (stage : StageSpec) :
    Task LoadError Loaded :=
  if config.verifiedBoot then do
    match ← loadVerified registry stage with
    | some loaded => return loaded
    | none =>
      match stage.fallback with
      | .forbidden => fail (.verificationRequired stage.name)
      | .container => loadFromContainer stage
  else loadFromContainer stage

end Image
end BootHandoff
