/-
# What the secure monitor is handed

The secure monitor is entered with the address of its parameters and finds the
rest from there.  `handedOver_of_prepare` says what it finds after a preparation
that succeeds, field by field and in the numbers of its interface: entry points in
the right world, pointers at the handoff's own structures or at nothing, and no
argument that nobody set.

| block | kind | bytes | attributes | contents |
| --- | ---: | ---: | ---: | --- |
| parameters | 3 | 48 | 0 | the places of the two entry points, no image |
| secure OS | 1 | 88 | 0 | its entry, the status `0x3c4` or `0x3d4`, at most four arguments |
| payload | 1 | 88 | 1 | entry and status as the caller has them, one argument |

Where the images are entered is said in terms of the platform and not of the
preparation: by what loading an image on its own gives there at that moment, and
for a secure OS that is copied by its placement in the carveout that the platform
reports.  No block has anything in it that a failed attempt before this one
left behind, since `Course` leads to it from an arbitrary state.
-/

import BootHandoff.Proofs.Bench.Steady
import BootHandoff.Proofs.Handoff.Footprint
import BootHandoff.Proofs.SecureOs.Course

namespace BootHandoff
namespace Handoff

open Abi Bench Board Flash Memory Platform SecureOs Verified

variable {σ : Type} {m : Machine σ} {s u : σ} {decoder : KeyStore.Decoder} {registry : Registry}
  {payload : Payload} {config : BootConfig} {stage : StageSpec} {c t : Context}
  {steps : List Step} {pc : UInt64}

/-- Loading the secure monitor on its own, when a handoff that begins in the
state `s` of the platform comes to it. -/
def monitorLoading (m : Machine σ) (s : σ) (registry : Registry) (config : BootConfig) :
    Outcome σ (Except (Stop LoadError) Image.Loaded) :=
  (Image.load config registry config.monitor).run.run m (m.after s [entered .loadMonitor])

/-- Where a secure OS is entered that is loaded from the state `u` of the platform
on. -/
inductive EnteredAt (m : Machine σ) (u : σ) (registry : Registry) (config : BootConfig)
    (stage : StageSpec) : SecureOsLoad → UInt64 → Prop where
  /-- An image that is loaded is entered where it says. -/
  | loaded {image : Image.Loaded}
      (hload : ((Image.load config registry stage).run.run m u).value = .ok image) :
      EnteredAt m u registry config stage .stage image.entry
  /-- An image that is copied is entered at its first byte. -/
  | placed {region : Region} {tz : MibRange} {pc : UInt64}
      (hlocate : ((Image.locate config registry stage).run.run m u).value = .ok region)
      (hreport : (m.respond (.carveout .tz)
        ((Image.locate config registry stage).run.run m u).state).1 = .ok tz)
      (hplace : placement tz config.monitorSizeMib region.len.toUInt64 = .ok pc) :
      EnteredAt m u registry config stage .raw pc

/-- The entry point that a secure OS at `pc` is given, by what the board adds to
the handoff and what the platform says of the trusted carveout. -/
inductive Given (config : BootConfig) (tz? : Except DriverError MibRange) (pc : UInt64) :
    Extension → EntryPoint → Prop where
  /-- Every exception is masked, and no argument is set. -/
  | plain : Given config tz? pc .none ⟨⟨1, 1, 88, 0⟩, pc, 0x3c4, 0, .zero⟩
  /-- The same for a 32-bit image, with the room in the carveout from the end of
  the secure monitor's space on, and the place of the boot block. -/
  | filled {place : UInt64} {block : BootBlock} {tz : MibRange} {stop base : UInt64}
      (hreport : tz? = .ok tz) (hbounds : Bounds config tz stop base) :
      Given config tz? pc (.tlk place block)
        ⟨⟨1, 1, 88, 0⟩, pc, 0x3d4, 0, ⟨stop - base, 0, place, 0xcafebabe, 0, 0, 0, 0⟩⟩

/-- What the secure monitor is handed by a preparation that takes the handoff
from the state `c` to `t`, on a platform that is in the state `s` before it. -/
structure HandedOver (m : Machine σ) (s : σ) (registry : Registry) (payload : Payload)
    (c t : Context) (jump : Jump) : Prop where
  jump_eq : ∃ monitor, (monitorLoading m s registry c.config).value = .ok monitor ∧
    jump = ⟨monitor.entry, c.places.monitorParams, 0⟩
  places_eq : t.places = c.places
  monitorParams_eq : t.monitorParams =
    { header := ⟨3, 1, 48, 0⟩
      monitorImage := 0
      secureOsEntry := if c.config.secureOs.isSome then c.places.secureOsEntry else 0
      secureOsImage := 0
      payloadEntry := c.places.payloadEntry
      payloadImage := 0 }
  payloadEntry_eq : t.payloadEntry =
    { header := ⟨1, 1, 88, 1⟩
      pc := payload.entry
      spsr := payload.spsr
      padding := 0
      args := ⟨payload.arg, 0, 0, 0, 0, 0, 0, 0⟩ }
  secureOsEntry_of : ∀ secureOs, c.config.secureOs = some secureOs →
    let u := m.after (monitorLoading m s registry c.config).state [entered .loadSecureOs]
    let loading := (loadSecureOs c.config registry secureOs).run.run m u
    let v := m.after loading.state [entered .assembleParams]
    ∃ pc, loading.value = .ok pc ∧
      EnteredAt m u registry c.config secureOs.stage secureOs.load pc ∧
      Given c.config (m.respond (.carveout .tz) v).1 pc c.extension t.secureOsEntry

/-- The entry point of a secure OS before the board adjusts it. -/
theorem Context.describing_secureOsEntry (c : Context) (pc : UInt64) :
    (c.describing pc).secureOsEntry = ⟨⟨1, 1, 88, 0⟩, pc, 0x3c4, 0, .zero⟩ := rfl

/-- Its saved status for an image that runs in 32-bit state. -/
theorem Context.describing_spsr_return32 (c : Context) (pc : UInt64) :
    (c.describing pc).secureOsEntry.spsr ||| SavedStatus.return32.bits = 0x3d4 := by
  show (0x3c4 : UInt32) ||| SavedStatus.return32.bits = 0x3d4
  decide

/-- A secure OS that was loaded is entered where the platform has it. -/
theorem enteredAt_of_path {secureOs : SecureOsConfig}
    (h : (loadSecureOs config registry secureOs).Path steps (.ok pc))
    (hanswers : m.Answers u steps) :
    EnteredAt m u registry config secureOs.stage secureOs.load pc := by
  rcases path_loadSecureOs h with ⟨hmode, loaded, hload, hpc⟩ | ⟨hmode, hcopy⟩
  · rw [hmode]
    cases loaded with
    | error stop => cases hpc
    | ok image =>
      obtain rfl : pc = image.entry := Except.ok.inj hpc
      exact .loaded (by rw [Firmware.run_eq_of_path hload hanswers])
  · rw [hmode]
    rcases path_copySecureOs hcopy with
      ⟨_, -, ⟨⟩⟩ | ⟨forImage, region, answer, rest, hlocate, rfl, hcopied⟩
    obtain ⟨tz, held, area, front, text, rfl, hplace, rfl⟩ := hcopied.ok_cases
    obtain ⟨hforImage, hreport, -⟩ := Machine.answers_append.1 hanswers
    have hrun := Firmware.run_eq_of_path hlocate hforImage
    exact .placed (by rw [hrun]) (by rw [hrun]; exact hreport.symm) hplace

/-- What the board's addition makes of the entry point of a secure OS. -/
theorem Adjusts.given (h : Adjusts decoder (c.describing pc) steps (.ok ()) t)
    (hanswers : m.Answers u steps) :
    Given c.config (m.respond (.carveout .tz) u).1 pc c.extension t.secureOsEntry := by
  cases h with
  | plain hextension =>
    rw [show c.extension = .none from hextension, c.describing_secureOsEntry]
    exact .plain
  | filled hextension hfill =>
    rw [show c.extension = .tlk _ _ from hextension, c.describing_spsr_return32]
    cases path_iff_fills.1 hfill with
    | complete hbounds hid hsurvey hkey hstore =>
      exact .filled hanswers.1.symm hbounds

/-- What is handed over at the end of a course whose steps the platform answers. -/
theorem Course.handedOver {jump : Jump} (h : Course decoder registry payload c steps (.ok jump) t)
    (hanswers : m.Answers s steps) : HandedOver m s registry payload c t jump := by
  cases h with
  | @alone forMonitor monitor _ hphase hmonitor hnone ht =>
    obtain ⟨hforMonitor, -⟩ := Machine.answers_append.1 hanswers.2
    have hloading : monitorLoading m s registry c.config = _ :=
      Firmware.run_eq_of_path hmonitor hforMonitor
    subst ht
    refine ⟨⟨monitor, by rw [hloading], rfl⟩, rfl, ?_, rfl, ?_⟩
    · rw [hnone]
      rfl
    · intro secureOs hsome
      cases hnone.symm.trans hsome
  | @complete forMonitor forSecureOs adjusting monitor secureOs pc v _ hphase hmonitor hsome hload
      hadjust ht =>
    obtain ⟨hforMonitor, -, hrest⟩ := Machine.answers_append.1 hanswers.2
    obtain ⟨hforSecureOs, -, hrest⟩ := Machine.answers_append.1 hrest
    obtain ⟨hadjusting, -⟩ := Machine.answers_append.1 hrest
    obtain ⟨-, hplaces, -, hparams, -⟩ := hadjust.keeps
    have hloading : monitorLoading m s registry c.config = _ :=
      Firmware.run_eq_of_path hmonitor hforMonitor
    subst ht
    refine ⟨⟨monitor, by rw [hloading], rfl⟩, hplaces, ?_, rfl, ?_⟩
    · -- The board's adjustment has left the fresh parameters alone.
      rw [hsome]
      show { v.monitorParams with
        secureOsEntry := v.places.secureOsEntry
        payloadEntry := v.places.payloadEntry } = _
      rw [hparams, hplaces]
      rfl
    · intro secureOs' hsome'
      obtain rfl := Option.some.inj (hsome.symm.trans hsome')
      rw [hloading]
      intro u loading
      have hloading' : loading = _ := Firmware.run_eq_of_path hload hforSecureOs
      rw [hloading']
      exact ⟨pc, rfl, enteredAt_of_path hload hforSecureOs, hadjust.given hadjusting⟩

/-- **What the secure monitor is handed.**  Whatever an earlier attempt left in
the blocks, after a preparation that succeeds the jump goes to the entry of the
secure monitor with the address of its parameters, and these have their header,
the addresses of the entry points and no image.  The payload is entered in the
normal world exactly as the caller asked, with one argument.  The secure OS, if
the board has one, is entered in the secure world where it was loaded or placed,
with no argument but the four that speak of its boot block. -/
theorem handedOver_of_prepare (m : Machine σ) (s : σ) (decoder : KeyStore.Decoder)
    (registry : Registry) (payload : Payload) (c : Context) (hcustom : c.extension ≠ .custom) :
    let r := ((prepare decoder registry payload).on c).run m s
    ∀ jump, r.value.1 = .ok jump → HandedOver m s registry payload c r.value.2 jump := by
  intro r jump hjump
  have hcourse := course_of_run hcustom hjump
  exact hcourse.handedOver (Firmware.answers_run m _ s)

/-- The hypotheses are satisfiable: a handoff with a boot block gets as far as the
jump on the bench, and its parameters point at the two entry points there. -/
theorem handedOver_of_prepare_on_bench :
    let c := Context.onBench (Rig.config false) (.tlk 0x4000 .zero)
    let r := ((prepare KeyStore.decodeOver .unavailable .onBench).on c).run Rig.machine Rig.stocked
    let jump : Jump := ⟨0x40000000, 0x1000, 0⟩
    c.extension ≠ .custom ∧ r.value.1 = .ok jump ∧
      HandedOver Rig.machine Rig.stocked .unavailable .onBench c r.value.2 jump ∧
      r.value.2.monitorParams = ⟨⟨3, 1, 48, 0⟩, 0, 0x2000, 0, 0x3000, 0⟩ := by
  intro c r jump
  have hcustom : c.extension ≠ .custom := nofun
  have hjump : r.value.1 = .ok jump := by
    unfold r c
    rfl
  have hhanded := handedOver_of_prepare Rig.machine Rig.stocked KeyStore.decodeOver .unavailable
    .onBench c hcustom jump hjump
  unfold r at *
  exact ⟨hcustom, hjump, hhanded, hhanded.monitorParams_eq⟩

end Handoff
end BootHandoff
