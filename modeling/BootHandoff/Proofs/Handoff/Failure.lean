/-
# A preparation that fails has not touched the processor

Cleaning is the last thing that is done for the secure OS, and the last thing
of a preparation, so nothing that can fail comes behind it.  What can fail is
listed in `Fails`, with the phase in which a handoff is left:

| failure | phase |
| --- | --- |
| the secure monitor does not load | `loadMonitor` |
| the secure OS is not found, not placed or not copied | `loadSecureOs` |
| the board's addition fails | `assembleParams` |

`processor_untouched_of_error` says that a preparation which ends in an error
has failed in exactly one of these ways, that the processor was asked nothing,
and that the whole handoff then gives up over this error in this phase.
-/

import BootHandoff.Proofs.Bench.Steady
import BootHandoff.Proofs.Handoff.Completeness
import BootHandoff.Proofs.Handoff.Ending
import BootHandoff.Proofs.Handoff.Footprint

namespace BootHandoff
namespace Handoff

open Bench Board Platform SecureOs Verified

variable {decoder : KeyStore.Decoder} {registry : Registry} {payload : Payload} {c t : Context}
  {steps : List Step} {phase : Phase} {e : BootError}

/-- The ways in which a preparation fails: what was done, the error that came
of it, and the phase in which the handoff is left. -/
inductive Fails (decoder : KeyStore.Decoder) (registry : Registry) (c : Context) :
    List Step → BootError → Phase → Prop where
  | monitor {forMonitor : List Step} {e : LoadError}
      (hmonitor : (Image.load c.config registry c.config.monitor).Path forMonitor
        (.error (.error e))) :
      Fails decoder registry c (entered .loadMonitor :: forMonitor) (.load e) .loadMonitor
  | secureOs {forMonitor forSecureOs : List Step} {monitor : Image.Loaded}
      {secureOs : SecureOsConfig} {e : BootError}
      (hmonitor : (Image.load c.config registry c.config.monitor).Path forMonitor (.ok monitor))
      (hsecureOs : c.config.secureOs = some secureOs)
      (hload : (loadSecureOs c.config registry secureOs).Path forSecureOs (.error (.error e))) :
      Fails decoder registry c (entered .loadMonitor :: (forMonitor ++ entered .loadSecureOs ::
        forSecureOs)) e .loadSecureOs
  | addition {forMonitor forSecureOs adjusting : List Step} {monitor : Image.Loaded}
      {secureOs : SecureOsConfig} {pc : UInt64} {e : BootError} {t : Context}
      (hmonitor : (Image.load c.config registry c.config.monitor).Path forMonitor (.ok monitor))
      (hsecureOs : c.config.secureOs = some secureOs)
      (hload : (loadSecureOs c.config registry secureOs).Path forSecureOs (.ok pc))
      (hadjust : (adjustEntry decoder).Path (c.describing pc) adjusting (.error (.error e)) t) :
      Fails decoder registry c (entered .loadMonitor :: (forMonitor ++ entered .loadSecureOs ::
        (forSecureOs ++ entered .assembleParams :: adjusting))) e .assembleParams

/-- **A course that ends in an error is one of the failures,** and leaves the
handoff in the phase of that failure. -/
theorem Course.fails (h : Course decoder registry payload c steps (.error (.error e)) t) :
    c.phase ≤ .loadMonitor ∧ Fails decoder registry c steps e t.phase := by
  generalize hend : Except.error (Stop.error e) = result at h
  cases h with
  | late hphase => cases hend
  | noMonitor hphase hmonitor =>
    rename_i forMonitor stop
    cases stop with
    | error e' =>
      obtain rfl := Stop.error.inj (Except.error.inj hend)
      exact ⟨hphase, .monitor hmonitor⟩
    | halt h => cases hend
  | noSecureOs hphase hmonitor hsecureOs hload =>
    obtain rfl := Except.error.inj hend
    exact ⟨hphase, .secureOs hmonitor hsecureOs hload⟩
  | notAdjusted hphase hmonitor hsecureOs hload hadjust =>
    obtain rfl := Except.error.inj hend
    have hleft : t.phase = .assembleParams := hadjust.keeps.2.2.1
    rw [hleft]
    exact ⟨hphase, .addition hmonitor hsecureOs hload hadjust.path⟩
  | alone hphase hmonitor hsecureOs ht => cases hend
  | complete hphase hmonitor hsecureOs hload hadjust ht => cases hend

/-- Each failure is that of a course. -/
theorem Fails.course (hcustom : c.extension ≠ .custom) (hphase : c.phase ≤ .loadMonitor)
    (payload : Payload) (h : Fails decoder registry c steps e phase) :
    ∃ t, Course decoder registry payload c steps (.error (.error e)) t ∧ t.phase = phase := by
  cases h with
  | monitor hmonitor => exact ⟨_, .noMonitor hphase hmonitor, rfl⟩
  | secureOs hmonitor hsecureOs hload => exact ⟨_, .noSecureOs hphase hmonitor hsecureOs hload, rfl⟩
  | addition hmonitor hsecureOs hload hadjust =>
    have hadjusts := adjusts_of_path (by exact hcustom) hadjust
    exact ⟨_, .notAdjusted hphase hmonitor hsecureOs hload hadjusts, hadjusts.keeps.2.2.1⟩

/-- **What was done tells the failures apart.** -/
theorem Fails.unique {e' : BootError} {phase' : Phase} (hcustom : c.extension ≠ .custom)
    (hphase : c.phase ≤ .loadMonitor) (h : Fails decoder registry c steps e phase)
    (h' : Fails decoder registry c steps e' phase') : e' = e ∧ phase' = phase := by
  obtain ⟨t, hcourse, rfl⟩ := h.course hcustom hphase ⟨0, 0, 0⟩
  obtain ⟨t', hcourse', rfl⟩ := h'.course hcustom hphase ⟨0, 0, 0⟩
  obtain ⟨-, hend, -⟩ := Firmware.Path.unique (hcourse'.path hcustom) (hcourse.path hcustom)
    (rfl : steps ++ [] = steps ++ [])
  obtain ⟨hresult, rfl⟩ := Prod.mk.inj hend
  exact ⟨Stop.error.inj (Except.error.inj hresult), rfl⟩

/-- An addition that ends early has not come to cleaning. -/
theorem Adjusts.processor_eq_nil {stop : Stop BootError}
    (h : Adjusts decoder c steps (.error stop) t) : seen Query.processor? steps = [] := by
  cases h with
  | filled hextension hfill =>
    rcases path_fill hfill with ⟨_, _, _, _, ⟨⟩, -⟩ | ⟨stop', -, hgathers, -⟩
    exact seen_eq_nil fun step hstep => (hgathers step hstep).processor?_eq_none

/-- **A preparation that ends early asks nothing of the processor.** -/
theorem Course.processor_eq_nil {stop : Stop BootError}
    (h : Course decoder registry payload c steps (.error stop) t) :
    seen Query.processor? steps = [] := by
  cases h with
  | late hphase => rfl
  | noMonitor hphase hmonitor =>
    rw [seen_cons, processor_of_load hmonitor]
    rfl
  | noSecureOs hphase hmonitor hsecureOs hload =>
    simp only [seen_cons, seen_append, processor_of_load hmonitor, processor_of_loadSecureOs hload]
    rfl
  | notAdjusted hphase hmonitor hsecureOs hload hadjust =>
    simp only [seen_cons, seen_append, processor_of_load hmonitor, processor_of_loadSecureOs hload,
      hadjust.processor_eq_nil]
    rfl

/-- **A preparation that fails has not touched the processor.**  If it ends in
an error, whatever the platform, the registry and the payload, then the
processor was asked nothing; the steps are those of exactly one of the failures,
which is that of this error and of the phase the handoff is in; and a whole
handoff in the same situation logs the phase and the error and stops with them,
without ever turning the MMU off or jumping. -/
theorem processor_untouched_of_error {σ : Type} (m : Machine σ) (s : σ)
    (decoder : KeyStore.Decoder) (registry : Registry) (payload : Payload) (c : Context)
    (hcustom : c.extension ≠ .custom) {e : BootError}
    (hfail : (((prepare decoder registry payload).on c).run m s).value.1 = .error (.error e)) :
    let p := ((prepare decoder registry payload).on c).run m s
    let left := p.value.2.phase
    let text := s!"handoff failed in {left.name}: {e.message}"
    let r := ((run decoder registry payload).run c).run m s
    seen Query.processor? p.steps = [] ∧
    Fails decoder registry c p.steps e left ∧
    (∀ e' phase, Fails decoder registry c p.steps e' phase → e' = e ∧ phase = left) ∧
    r.value.1 = .died text ∧ r.value.2 = p.value.2 ∧ r.steps = p.steps ++ [logged .error text] ∧
    seen Query.processor? r.steps = [] := by
  intro p left text r
  obtain ⟨hcourse, rest, hsteps, hends⟩ := run_ends m s registry payload hcustom
  have herror : p.value.1 = .error (.error e) := hfail
  rw [show (((prepare decoder registry payload).on c).run m s).value.1 = _ from herror]
    at hcourse hends
  obtain ⟨hphase, hfails⟩ := hcourse.fails
  have hquiet : seen Query.processor? p.steps = [] := hcourse.processor_eq_nil
  obtain ⟨hrest, hhalt, hleft⟩ := hends.of_error
  have hrun : r.steps = p.steps ++ [logged .error text] := by rw [hsteps, hrest]
  refine ⟨hquiet, hfails, fun e' phase h' => hfails.unique hcustom hphase h',
    hhalt, hleft, hrun, ?_⟩
  rw [hrun, seen_append, hquiet]
  rfl

/-- The hypotheses are satisfiable: on a bench whose drivers do not know the memory
above 4 GiB, the boot block cannot be filled, and the handoff stops where the
parameters are assembled. -/
theorem processor_untouched_of_error_on_bench :
    let e : BootError := .driver .memoryRange
    let left : Phase := .assembleParams
    let rig := { Rig.stocked with soc := { Soc.small with above4G := .error .memoryRange } }
    let c := Context.onBench (Rig.config false) (.tlk 0x4000 .zero)
    let p := ((prepare KeyStore.decodeOver .unavailable .onBench).on c).run Rig.machine rig
    let r := ((run KeyStore.decodeOver .unavailable .onBench).run c).run Rig.machine rig
    c.extension ≠ .custom ∧ p.value.1 = .error (.error e) ∧
    seen Query.processor? p.steps = [] ∧ p.value.2.phase = left ∧
    r.value.1 = .died s!"handoff failed in {left.name}: {e.message}" ∧
    seen Query.processor? r.steps = [] := by
  intro e left rig c p r
  have hcustom : c.extension ≠ .custom := nofun
  have hfail : p.value.1 = .error (.error e) := by
    unfold p c rig
    rfl
  have hleft : p.value.2.phase = left := by
    unfold p c rig
    rfl
  obtain ⟨hquiet, -, -, hdied, -, -, hnever⟩ :=
    processor_untouched_of_error Rig.machine rig KeyStore.decodeOver .unavailable .onBench c hcustom
      hfail
  unfold p r at *
  rw [hleft] at hdied
  exact ⟨hcustom, hfail, hquiet, hleft, hdied, hnever⟩

end Handoff
end BootHandoff
