/-
# The boards

Every board names the images it boots, and what its secure OS needs besides an
entry point.
-/

import BootHandoff.Board.Config

namespace BootHandoff
namespace Board

/-- A stage's place in the container: below `fallback/`. -/
def containerName (stage : String) : String := "fallback/" ++ stage

/-- The secure operating systems that need more than an entry point. -/
inductive Kernel where
  /-- None does. -/
  | none
  /-- The Trusted Little Kernel, with its boot block. -/
  | tlk
  deriving DecidableEq, Repr, Inhabited

/-- A board. -/
structure Description where
  name : String
  config : BootConfig
  kernel : Kernel
  deriving DecidableEq, Repr

/-- The secure monitor, as every board names it. -/
def monitorStage : StageSpec := ⟨1, containerName "bl31", .container⟩

/-- The secure OS, as every board that has one names it. -/
def secureOsStage : StageSpec := ⟨2, containerName "secure_os", .container⟩

/-- Smaug runs the Trusted Little Kernel, copied into the trusted carveout, and
trains its memory before the handoff. -/
def smaug : Description where
  name := "target-board-smaug"
  kernel := .tlk
  config := {
    verifiedBoot := true
    monitor := monitorStage
    secureOs := some ⟨secureOsStage, .raw⟩
    monitorSizeMib := 1
    uart := .a
    training := some ⟨⟨3, containerName "tegra_mtc", .container⟩, 0x80001000, 0x20000⟩ }

/-- The QEMU `virt` machine has no verifying stage, no secure OS and no memory
training. -/
def qemuVirt : Description where
  name := "target-board-qemu-virt"
  kernel := .none
  config := {
    verifiedBoot := false
    monitor := monitorStage
    secureOs := none
    monitorSizeMib := 1
    uart := .none
    training := none }

/-- The board that a build is for unless it says otherwise. -/
def selected : Description := smaug

end Board
end BootHandoff
