/-
# A boot ends in one of two ways

Boot code is full of operations that may halt: sums and products of words from
the memory map, ranges that the flash names, indices of the registry.  On a
board all of whose stages have a slot, each of them is guarded by a check made
elsewhere or by a promise of the platform, so a handoff that meets no fault
ends either in the secure monitor, which then comes back, or in a message about
what failed (`run_of_exact`).

`boot_smaug_ends` says so of a whole boot of Smaug.
-/

import BootHandoff.Handoff.Boot
import BootHandoff.Proofs.Bench.Exact
import BootHandoff.Proofs.Handoff.Cleaning
import BootHandoff.Proofs.Handoff.Failure
import BootHandoff.Proofs.Handoff.Halting
import Mathlib.Logic.Basic

namespace BootHandoff
namespace Handoff

open Bench Board Platform Verified

variable {σ : Type} {decoder : KeyStore.Decoder} {registry : Registry} {payload : Payload}
  {c : Context}

/-- A run that has got as far as the secure monitor, from where it came back:
the MMU was turned off once, right before the only jump, and nothing was asked
of the processor before that but to clean. -/
def ComesBack (prepared : Except (Stop BootError) Jump × Context) (steps : List Step)
    (halt : Halt) : Prop :=
  ∃ jump, prepared.1 = .ok jump ∧
    seen Query.processor? steps = prepared.2.cleanedBlocks.map .clean ++ [.disableMmu,
      .enterMonitor jump.entry jump.params jump.platformParams prepared.2.memory] ∧
    steps.getLast? = some (logged .error "BL31 returned!") ∧ halt = .died "BL31 returned!"

/-- A run that has given up over an error, with nothing asked of the
processor. -/
def GivesUp (prepared : Except (Stop BootError) Jump × Context) (steps : List Step)
    (halt : Halt) : Prop :=
  ∃ e, prepared.1 = .error (.error e) ∧
    let text := s!"handoff failed in {prepared.2.phase.name}: {e.message}"
    seen Query.processor? steps = [] ∧ steps.getLast? = some (logged .error text) ∧
    halt = .died text

theorem GivesUp.not_comesBack {prepared : Except (Stop BootError) Jump × Context}
    {steps : List Step} {halt : Halt} (h : GivesUp prepared steps halt) :
    ¬ComesBack prepared steps halt := by
  obtain ⟨e, herror, -⟩ := h
  rintro ⟨jump, hjump, -⟩
  rw [herror] at hjump
  cases hjump

theorem ComesBack.of_xor {prepared : Except (Stop BootError) Jump × Context} {steps : List Step}
    {halt : Halt} {jump : Jump}
    (h : Xor (ComesBack prepared steps halt) (GivesUp prepared steps halt))
    (hjump : prepared.1 = .ok jump) : ComesBack prepared steps halt := by
  rcases h with ⟨hback, -⟩ | ⟨⟨e, herror, -⟩, -⟩
  · exact hback
  · rw [hjump] at herror
    cases herror

/-- The steps before a run do not change how it ends. -/
theorem ComesBack.cons {prepared : Except (Stop BootError) Jump × Context} {steps : List Step}
    {halt : Halt} (text : String) (h : ComesBack prepared steps halt) :
    ComesBack prepared (logged .info text :: steps) halt := by
  obtain ⟨jump, hjump, hprocessor, hlast, hhalt⟩ := h
  refine ⟨jump, hjump, hprocessor, ?_, hhalt⟩
  rw [List.getLast?_cons, hlast]
  rfl

theorem GivesUp.cons {prepared : Except (Stop BootError) Jump × Context} {steps : List Step}
    {halt : Halt} (text : String) (h : GivesUp prepared steps halt) :
    GivesUp prepared (logged .info text :: steps) halt := by
  obtain ⟨e, herror, hprocessor, hlast, hhalt⟩ := h
  refine ⟨e, herror, hprocessor, ?_, hhalt⟩
  rw [List.getLast?_cons, hlast]
  rfl

/-- Only one of the two can be, also with a line of the log before it. -/
theorem xor_of_cons {prepared : Except (Stop BootError) Jump × Context} {steps : List Step}
    {halt : Halt} (text : String)
    (h : ComesBack prepared steps halt ∨ GivesUp prepared steps halt) :
    Xor (ComesBack prepared (logged .info text :: steps) halt)
      (GivesUp prepared (logged .info text :: steps) halt) := by
  rcases h with hback | hgives
  · exact .inl ⟨hback.cons text, fun hgives => hgives.not_comesBack (hback.cons text)⟩
  · exact .inr ⟨hgives.cons text, (hgives.cons text).not_comesBack⟩

/-- A course without a fault has an end that is no halt of its own. -/
theorem Course.ends_of_exact {preparing rest : List Step} {result : Except (Stop BootError) Jump}
    {u t : Context} {halt : Halt} (hcourse : Course decoder registry payload c preparing result u)
    (hends : Ends u result rest halt t) (hphase : c.phase ≤ .loadMonitor)
    (hindex : ∀ stage ∈ c.config.stages, stage.index.toNat < 6)
    (hexact : ∀ step ∈ preparing ++ rest, step.Exact) :
    ComesBack (result, u) (preparing ++ rest) halt ∨
      GivesUp (result, u) (preparing ++ rest) halt := by
  cases hends with
  | returned jump =>
    refine .inl ⟨jump, rfl, ?_, ?_, rfl⟩
    · rw [seen_append, hcourse.processor]
      rfl
    · rw [List.getLast?_append]
      rfl
  | failed e =>
    refine .inr ⟨e, rfl, ?_, ?_, rfl⟩
    · rw [seen_append, hcourse.processor_eq_nil]
      rfl
    · rw [List.getLast?_append]
      rfl
  | halted h =>
    rcases hcourse.blame hphase with hmisindexes | ⟨step, hstep, hfault⟩
    · exact absurd hmisindexes (BootConfig.not_misindexes_of_forall_lt hindex)
    · exact absurd (hexact step (List.mem_append_left _ hstep)) hfault.not_exact

/-- **A handoff that meets no fault does not halt by itself.** -/
theorem run_of_exact (m : Machine σ) (s : σ) (hcustom : c.extension ≠ .custom)
    (hphase : c.phase ≤ .loadMonitor)
    (hindex : ∀ stage ∈ c.config.stages, stage.index.toNat < 6)
    (hexact : ∀ step ∈ (((run decoder registry payload).run c).run m s).steps, step.Exact) :
    let p := ((prepare decoder registry payload).on c).run m s
    let r := ((run decoder registry payload).run c).run m s
    ComesBack p.value r.steps r.value.1 ∨ GivesUp p.value r.steps r.value.1 := by
  intro p r
  obtain ⟨hcourse, rest, hsteps, hends⟩ := run_ends m s registry payload hcustom
  rw [show r.steps = p.steps ++ rest from hsteps]
  rw [hsteps] at hexact
  exact hcourse.ends_of_exact hends hphase hindex hexact

/-- A boot is a handoff with one line of the log before it. -/
theorem run_boot (m : Machine σ) (s : σ) (board : Description) (places : Places)
    (blockPlace : UInt64) (registry : Registry) (payload : Payload) :
    let text := s!"ryuboot: handoff on {board.name}"
    let c := Context.new board.config places (.fresh blockPlace board.kernel)
    let r := ((run decoder registry payload).run c).run m ((Firmware.log .info text).run m s).state
    (boot decoder board places blockPlace registry payload).run m s =
      ⟨r.value.1, r.state, logged .info text :: r.steps⟩ := by
  intro text c r
  have hboot : boot decoder board places blockPlace registry payload =
      Firmware.log .info text >>= fun _ =>
        (run decoder registry payload).run c >>= fun ended => pure ended.1 := rfl
  rw [hboot, Firmware.run_bind, Firmware.run_bind]
  simp only [Firmware.run_pure, List.append_nil]
  rfl

/-- All stages of Smaug have slots. -/
theorem index_lt_of_mem_smaug_stages : ∀ stage ∈ smaug.config.stages, stage.index.toNat < 6 := by
  decide

/-- **A boot of Smaug ends in exactly one of two ways,** whatever the registry,
the flash and the drivers answer, as long as mappings and windows have the
length that was asked for and the trusted carveout ends within the 64-bit words.
Either the secure monitor was entered, once, right behind the only time that the
MMU was turned off, and the boot stops because it came back; or the preparation
failed, nothing was asked of the processor, and the boot stops with the phase
and the error.  It never stops over an overflow, an index or a failed
assertion. -/
theorem boot_smaug_ends (m : Machine σ) (s : σ) (decoder : KeyStore.Decoder)
    (places : Places) (blockPlace : UInt64) (registry : Registry) (payload : Payload)
    (hexact : ∀ step ∈ ((boot decoder smaug places blockPlace registry payload).run m s).steps,
      step.Exact) :
    let c := Context.new smaug.config places (.tlk blockPlace .zero)
    let begun := ((Firmware.log .info s!"ryuboot: handoff on {smaug.name}").run m s).state
    let p := ((prepare decoder registry payload).on c).run m begun
    let r := (boot decoder smaug places blockPlace registry payload).run m s
    Xor (ComesBack p.value r.steps r.value) (GivesUp p.value r.steps r.value) := by
  intro c begun p r
  have hcustom : c.extension ≠ .custom := nofun
  have hphase : c.phase ≤ .loadMonitor := show Phase.init ≤ .loadMonitor by decide
  let handoff := ((run decoder registry payload).run c).run m begun
  let first := logged .info s!"ryuboot: handoff on {smaug.name}"
  have hr : r = ⟨handoff.value.1, handoff.state, first :: handoff.steps⟩ :=
    run_boot m s smaug places blockPlace registry payload
  have hsteps : ∀ step ∈ handoff.steps, step.Exact := fun step hstep =>
    hexact step (show step ∈ r.steps from hr ▸ List.mem_cons_of_mem _ hstep)
  have hends : ComesBack p.value handoff.steps handoff.value.1 ∨
      GivesUp p.value handoff.steps handoff.value.1 :=
    run_of_exact m begun hcustom hphase index_lt_of_mem_smaug_stages hsteps
  rw [hr]
  exact xor_of_cons _ hends

/-- The hypotheses are satisfiable: every answer of the bench keeps the promises,
and a boot on it comes back from the secure monitor. -/
theorem boot_smaug_ends_on_bench :
    let places : Places := ⟨0x1000, 0x2000, 0x3000⟩
    let c := Context.new smaug.config places (.tlk 0x4000 .zero)
    let begun := ((Firmware.log .info s!"ryuboot: handoff on {smaug.name}").run Rig.machine
      Rig.stocked).state
    let p := ((prepare KeyStore.decodeOver .unavailable .onBench).on c).run Rig.machine begun
    let r := (boot KeyStore.decodeOver smaug places 0x4000 .unavailable .onBench).run Rig.machine
      Rig.stocked
    (∀ step ∈ r.steps, step.Exact) ∧ ComesBack p.value r.steps r.value := by
  intro places c begun p r
  have htz : ∀ tz, Rig.stocked.soc.tz = .ok tz → tz.finish < 2 ^ 64 := by
    rintro _ ⟨⟩
    decide
  have hexact : ∀ step ∈ r.steps, step.Exact := fun step hstep =>
    Rig.exact_of_mem_steps rfl htz hstep
  have hjump : p.value.1 = .ok ⟨0x40000000, 0x1000, 0⟩ := by
    unfold p begun c places
    rfl
  have hends := boot_smaug_ends Rig.machine Rig.stocked KeyStore.decodeOver places 0x4000
    .unavailable .onBench hexact
  exact ⟨hexact, .of_xor hends hjump⟩

end Handoff
end BootHandoff
