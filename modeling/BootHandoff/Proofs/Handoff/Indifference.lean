/-
# What a boot learns from the registry

The registry is asked one thing only: which verified image it has for a stage
of the board, and with verified boot off not even that.  Two registries that
say the same of the stages that a board names (`Agrees`) are therefore the same
to a preparation and to the training, as programs, and so on every platform.

`registry_indifference` says so, and what it means for the record: its flags,
the slots of other stages, the address in an empty slot, and whether an empty
record is there at all make no difference.
-/

import BootHandoff.Proofs.Bench.Steady
import BootHandoff.Proofs.Handoff.Completeness
import BootHandoff.Proofs.Handoff.Halting
import BootHandoff.Proofs.Platform.Extensionality
import BootHandoff.Proofs.Training.Halting

namespace BootHandoff

open Bench Board Platform Verified

variable {config : BootConfig} {registry registry' : Registry} {stage : StageSpec}

namespace Image

/-- The verified image of a stage, where it counts, is the same in two
registries. -/
def AgreeOn (config : BootConfig) (registry registry' : Registry) (stage : StageSpec) : Prop :=
  config.verifiedBoot = true → registry.verified stage.index = registry'.verified stage.index

theorem load_congr (h : AgreeOn config registry registry' stage) :
    load config registry stage = load config registry' stage := by
  unfold load loadVerified
  cases hverified : config.verifiedBoot with
  | false => rfl
  | true => rw [h hverified]

theorem locate_congr (h : AgreeOn config registry registry' stage) :
    locate config registry stage = locate config registry' stage := by
  unfold locate
  cases hverified : config.verifiedBoot with
  | false => rfl
  | true => rw [h hverified]

end Image

namespace Handoff

variable {decoder : KeyStore.Decoder} {payload : Payload} {c t : Context} {steps : List Step}

/-- Two registries say the same of every stage that a board names, or the board
does not look. -/
def Agrees (config : BootConfig) (registry registry' : Registry) : Prop :=
  config.verifiedBoot = false ∨
    ∀ stage ∈ config.stages, registry.verified stage.index = registry'.verified stage.index

theorem Agrees.agreeOn (h : Agrees config registry registry') (hstage : stage ∈ config.stages) :
    Image.AgreeOn config registry registry' stage := by
  intro hverified
  rcases h with hoff | hsame
  · rw [hoff] at hverified
    cases hverified
  · exact hsame stage hstage

theorem loadSecureOs_congr {secureOs : SecureOsConfig}
    (h : Image.AgreeOn config registry registry' secureOs.stage) :
    loadSecureOs config registry secureOs = loadSecureOs config registry' secureOs := by
  unfold loadSecureOs copySecureOs
  rw [Image.load_congr h, Image.locate_congr h]

/-- The same course is taken with either registry. -/
theorem Course.congr {result : Except (Stop BootError) Jump}
    (h : Agrees c.config registry registry')
    (hcourse : Course decoder registry payload c steps result t) :
    Course decoder registry' payload c steps result t := by
  have hload := Image.load_congr (h.agreeOn c.config.monitor_mem_stages)
  have hsecureOs : ∀ {secureOs}, c.config.secureOs = some secureOs →
      loadSecureOs c.config registry secureOs = loadSecureOs c.config registry' secureOs :=
    fun hsome => loadSecureOs_congr (h.agreeOn (BootConfig.secureOs_mem_stages hsome))
  cases hcourse with
  | late hphase => exact .late hphase
  | noMonitor hphase hmonitor =>
    rw [hload] at hmonitor
    exact .noMonitor hphase hmonitor
  | noSecureOs hphase hmonitor hsome hpath =>
    rw [hload] at hmonitor
    rw [hsecureOs hsome] at hpath
    exact .noSecureOs hphase hmonitor hsome hpath
  | notAdjusted hphase hmonitor hsome hpath hadjust =>
    rw [hload] at hmonitor
    rw [hsecureOs hsome] at hpath
    exact .notAdjusted hphase hmonitor hsome hpath hadjust
  | alone hphase hmonitor hnone ht =>
    rw [hload] at hmonitor
    exact .alone hphase hmonitor hnone ht
  | complete hphase hmonitor hsome hpath hadjust ht =>
    rw [hload] at hmonitor
    rw [hsecureOs hsome] at hpath
    exact .complete hphase hmonitor hsome hpath hadjust ht

/-- **A preparation is the same program with either registry.** -/
theorem prepare_congr (hcustom : c.extension ≠ .custom) (h : Agrees c.config registry registry') :
    (prepare decoder registry payload).on c = (prepare decoder registry' payload).on c :=
  Action.on_eq_of_path fun _ _ _ hpath =>
    ((course_of_path hcustom hpath).congr h).path hcustom

/-- **So is the training.** -/
theorem training_congr {n : Nat} {place : UInt64} (h : Agrees config registry registry') :
    (Training.run config registry place : Action (Buffer n) _ _) =
      Training.run config registry' place := by
  unfold Training.run
  cases hcode : config.training with
  | none => rfl
  | some code =>
    have hlocate : Training.locateCode config registry code =
        Training.locateCode config registry' code := by
      unfold Training.locateCode
      rw [Image.locate_congr (h.agreeOn (BootConfig.training_mem_stages hcode))]
    dsimp only
    rw [hlocate]

/-- Without verified boot a preparation that starts in time fails no
assertion. -/
theorem Course.ne_assertionFailed (hverified : c.config.verifiedBoot = false)
    (hphase : c.phase ≤ .loadMonitor) {result : Except (Stop BootError) Jump}
    (h : Course decoder registry payload c steps result t) :
    result ≠ .error (.halt .assertionFailed) := by
  rintro rfl
  rcases h.blame hphase with hmisindexes | ⟨step, -, hfault⟩
  · exact BootConfig.not_misindexes_of_unverified hverified hmisindexes
  · exact hfault.ne_assertionFailed rfl

/-- **All that a boot learns from the registry is the verified image of each
stage.**  Two registries that say the same of the stages of a board, and any
two if verified boot is off, give the same preparation and the same training on
every platform: the results, what is logged and asked, the structures, the
table, and the memory that the platform is left with.  So the flags of the
record, the slots of other stages and the address in an empty slot make no
difference, nor does a record without an image for any stage make one from no
record at all.  With verified boot off no index halts either. -/
theorem registry_indifference {σ : Type} (m : Machine σ) (s : σ) (decoder : KeyStore.Decoder)
    (payload : Payload) (c : Context) {n : Nat} (place : UInt64) (area : Buffer n)
    (hcustom : c.extension ≠ .custom) :
    let handoff := fun registry => ((prepare decoder registry payload).on c).run m s
    let training := fun registry => ((Training.run c.config registry place).on area).run m s
    (∀ registry registry', Agrees c.config registry registry' →
      handoff registry = handoff registry' ∧ training registry = training registry') ∧
    (∀ record record' : Record,
      (∀ stage ∈ c.config.stages, ∀ hlt : stage.index.toNat < 6,
        record.components[stage.index.toNat] = record'.components[stage.index.toNat] ∨
          record.components[stage.index.toNat].size = 0 ∧
            record'.components[stage.index.toNat].size = 0) →
      handoff ⟨some record⟩ = handoff ⟨some record'⟩ ∧
        training ⟨some record⟩ = training ⟨some record'⟩) ∧
    (∀ record : Record,
      (∀ stage ∈ c.config.stages, ∀ hlt : stage.index.toNat < 6,
        record.components[stage.index.toNat].size = 0) →
      handoff ⟨some record⟩ = handoff .unavailable ∧
        training ⟨some record⟩ = training .unavailable) ∧
    (c.config.verifiedBoot = false → ∀ registry,
      (c.phase ≤ .loadMonitor → (handoff registry).value.1 ≠ .error (.halt .assertionFailed)) ∧
        (training registry).value.1 ≠ .error (.halt .assertionFailed)) := by
  intro handoff training
  have hsame : ∀ registry registry', Agrees c.config registry registry' →
      handoff registry = handoff registry' ∧ training registry = training registry' := by
    intro registry registry' h
    exact ⟨congrArg (Firmware.run m · s) (prepare_congr hcustom h),
      congrArg (fun x : Action (Buffer n) _ _ => (x.on area).run m s) (training_congr h)⟩
  refine ⟨hsame, fun record record' h => hsame _ _ (.inr fun stage hstage => ?_),
    fun record h => hsame _ _ (.inr fun stage hstage => ?_), fun hverified registry => ⟨?_, ?_⟩⟩
  · exact Registry.verified_eq_of_slots (h stage hstage)
  · exact Registry.verified_eq_unavailable (h stage hstage)
  · intro hphase
    have hcourse := course_of_path hcustom
      (Action.path_run m (prepare decoder registry payload) c s)
    exact hcourse.ne_assertionFailed hverified hphase
  · intro hhalt
    have htraining := Action.path_run m (Training.run c.config registry place) area s
    rw [show (((Training.run c.config registry place).on area).run m s).value.1 = _ from hhalt]
      at htraining
    rcases Training.haltsOnly_run _ _ _ _ _ _ _ htraining with hmisindexes | ⟨step, -, hfault⟩
    · exact BootConfig.not_misindexes_of_unverified hverified hmisindexes
    · exact hfault.ne_assertionFailed rfl

/-- The hypothesis is satisfiable: on the bench a handoff with a boot block gets
ready in the same way with a record that has flags, and an address in each of
its empty slots, as without a record. -/
theorem registry_indifference_on_bench :
    let c := Context.onBench smaug.config (.tlk 0x4000 .zero)
    let record : Record := ⟨7, 3, 1, Vector.replicate 6 ⟨0x800, 0⟩⟩
    let handoff := fun registry =>
      ((prepare KeyStore.decodeOver registry .onBench).on c).run Rig.machine Rig.stocked
    c.extension ≠ .custom ∧ handoff ⟨some record⟩ = handoff .unavailable ∧
    (handoff ⟨some record⟩).value.1 = .ok ⟨0x40000000, 0x1000, 0⟩ := by
  intro c record handoff
  have hcustom : c.extension ≠ .custom := nofun
  obtain ⟨-, -, hempty, -⟩ := registry_indifference Rig.machine Rig.stocked
    KeyStore.decodeOver .onBench c 0x80001000 (Buffer.zero 4) hcustom
  have hsame : handoff ⟨some record⟩ = handoff .unavailable :=
    (hempty record fun stage _ hlt => by rw [Vector.getElem_replicate]).1
  have hready : (handoff .unavailable).value.1 = .ok ⟨0x40000000, 0x1000, 0⟩ := by
    unfold handoff c
    rfl
  exact ⟨hcustom, hsame, by rw [hsame]; exact hready⟩

end Handoff
end BootHandoff
