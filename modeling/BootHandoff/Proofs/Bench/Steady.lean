/-
# What stays the same on the bench

A run changes what the bench's memory and flash hold, but not the answers of
its drivers: they come from `Rig.soc`, which no query replaces
(`Rig.respond_soc`), so a driver that is asked twice gives the same answer
(`Rig.carveout_eq`).

`Rig.stocked` is the standard bench with something to hand over to,
`Rig.provisioned` also has the secrets of a boot block, and `Context.onBench` and
`Payload.onBench` are what a handoff on it begins with.
-/

import BootHandoff.Bench.Rig
import BootHandoff.Handoff.Context

namespace BootHandoff
namespace Platform
namespace Firmware

/-- **What every answer leaves alone holds at every step:** if no query takes the
platform out of `I`, each step of a run from `I` was answered in `I`. -/
theorem answered_of_invariant {σ α : Type} {m : Machine σ} {I : σ → Prop}
    (hkeeps : ∀ q s, I s → I (m.respond q s).2) {x : Firmware α} {s : σ} (h : I s) {step : Step}
    (hstep : step ∈ (x.run m s).steps) : ∃ t, I t ∧ step.answer = (m.respond step.query t).1 := by
  induction x generalizing s with
  | done a => exact absurd hstep List.not_mem_nil
  | ask q next ih =>
    rw [run_ask, List.mem_cons] at hstep
    obtain rfl | hstep := hstep
    · exact ⟨s, h, rfl⟩
    · exact ih _ (hkeeps q s h) hstep

end Firmware
end Platform
namespace Bench

open Board Memory Platform

namespace Rig

variable {α : Type}

/-- The drivers stay what they are, whatever is asked. -/
theorem respond_soc (q : Query) (r : Rig) : (respond q r).2.soc = r.soc := by
  cases q <;> rfl

/-- The memory map gives the same answer throughout a run. -/
theorem carveout_eq {x : Firmware α} {r : Rig} {which : Carveout}
    {answer : Except DriverError MibRange}
    (h : ⟨.carveout which, answer⟩ ∈ (x.run machine r).steps) : answer = r.soc.carveout which := by
  obtain ⟨t, hsoc, hanswer⟩ := Firmware.answered_of_invariant (I := fun t => t.soc = r.soc)
    (fun q s hs => (respond_soc q s).trans hs) rfl h
  rw [show answer = t.soc.carveout which from hanswer, hsoc]

/-- The standard bench with a secure monitor and a secure OS on its flash, each
of them in the container and at an offset of its own. -/
def stocked : Rig :=
  { standard with
    flash := (((standard.flash.addNamedStage monitorStage.name 0x40000000).addStageAt 0x800
      0x40000000).addFile secureOsStage.name ⟨0x1000, 4⟩) }

/-- The stocked bench with two secrets: a root key of a few bytes on its flash,
and the digits of a key store in its product data. -/
def provisioned (key : Bytes) (digits : String) : Rig :=
  { stocked with
    flash := { stocked.flash.addArea RootKey.areaName ⟨0x2000, 0x200⟩ with
      bytes := ((stocked.flash.bytes.write 0x2000 RootKey.signature.bytes).write 0x2018
        [0x80, 0, 0, 0, UInt8.ofNat key.length, 0, 0, 0]).write 0x2080 key }
    productData := some (.entries [(KeyStore.key, Bytes.ofText digits)]) }

/-- Training code for the bench, with a place of a few bytes. -/
def trainingCode : TrainingConfig :=
  ⟨⟨3, containerName "tegra_mtc", .container⟩, 0x40001000, 0x20⟩

/-- A board that trains its memory with this code. -/
def trainingConfig : BootConfig := { config false with training := some trainingCode }

/-- The standard bench with training code on its flash, and a table in memory that the code
answers with. -/
def training (code table : Bytes) : Rig :=
  { standard with
    flash := { standard.flash.addFile trainingCode.stage.name
        ⟨0x1000, UInt32.ofNat code.length⟩ with
      bytes := standard.flash.bytes.write 0x1000 code }
    dram := standard.dram.store 0x40002000 table
    trained := (0x40002000, UInt64.ofNat table.length) }

end Rig
end Bench
namespace Handoff

open Board

/-- A handoff on the bench that has not begun. -/
def Context.onBench (config : BootConfig) (extension : Extension) : Context :=
  .new config ⟨0x1000, 0x2000, 0x3000⟩ extension

/-- A payload for the bench. -/
def Payload.onBench : Payload := ⟨0x80000000, 0, 0⟩

end Handoff
end BootHandoff
