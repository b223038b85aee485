/-
# When getting an image halts

There is one thing that the loader does not survive by itself: with verified
boot, a stage whose index is none of the registry's slots (`Misindexed`).  The
other halt on the way to an image is a window that is shorter than the image
that is copied there.
-/

import BootHandoff.Proofs.Image.Copying
import BootHandoff.Proofs.Image.Sources
import BootHandoff.Proofs.Platform.Faults

namespace BootHandoff
namespace Image

open Board Flash Platform Verified

variable {config : BootConfig} {registry : Registry} {stage : StageSpec} {steps : List Step}

/-- The halt of a stage that the registry has no slot for, with verified
boot. -/
def Misindexed (config : BootConfig) (stage : StageSpec) (h : Halt) : Prop :=
  config.verifiedBoot = true ∧ 6 ≤ stage.index.toNat ∧ h = .assertionFailed

theorem haltsOnly_verified (hverified : config.verifiedBoot = true) :
    (check (registry.verified stage.index) : Task LoadError (Option Component)).HaltsOnly
      (Misindexed config stage) :=
  Task.haltsOnly_check fun _ hslot => ⟨hverified, Registry.verified_eq_error_iff.1 hslot⟩

theorem haltsOnly_loadFromContainer {own : Halt → Prop} (stage : StageSpec) :
    (loadFromContainer stage).HaltsOnly own := by
  refine Task.haltsOnly_lift_bind fun answer => ?_
  cases answer with
  | ok entry => exact Task.haltsOnly_lift_bind fun _ => Task.haltsOnly_pure _
  | error e => exact Task.haltsOnly_lift_bind fun _ => Task.haltsOnly_fail _

theorem haltsOnly_loadVerified (hverified : config.verifiedBoot = true) :
    (loadVerified registry stage).HaltsOnly (Misindexed config stage) := by
  refine Task.haltsOnly_bind (haltsOnly_verified hverified) fun slot => ?_
  cases slot with
  | none => exact Task.haltsOnly_pure _
  | some c => exact Task.haltsOnly_lift _

theorem haltsOnly_load (config : BootConfig) (registry : Registry) (stage : StageSpec) :
    (load config registry stage).HaltsOnly (Misindexed config stage) := by
  unfold load
  split
  · rename_i hverified
    refine Task.haltsOnly_bind (haltsOnly_loadVerified hverified) fun loaded? => ?_
    split
    · exact Task.haltsOnly_pure _
    · split
      · exact Task.haltsOnly_fail _
      · exact haltsOnly_loadFromContainer stage
  · exact haltsOnly_loadFromContainer stage

theorem haltsOnly_locateInContainer {own : Halt → Prop} (stage : StageSpec) :
    (locateInContainer stage).HaltsOnly own := by
  refine Task.haltsOnly_lift_bind fun _ => Task.haltsOnly_lift_bind fun answer => ?_
  cases answer with
  | ok region => exact Task.haltsOnly_pure _
  | error e => exact Task.haltsOnly_lift_bind fun _ => Task.haltsOnly_fail _

theorem haltsOnly_locate (config : BootConfig) (registry : Registry) (stage : StageSpec) :
    (locate config registry stage).HaltsOnly (Misindexed config stage) := by
  unfold locate
  split
  · rename_i hverified
    refine Task.haltsOnly_bind (haltsOnly_verified hverified) fun slot => ?_
    split
    · exact Task.haltsOnly_pure _
    · split
      · exact Task.haltsOnly_fail _
      · exact haltsOnly_locateInContainer stage
  · exact haltsOnly_locateInContainer stage

/-- **A copy halts only at a window that is too short for it.** -/
theorem length_lt_of_copyToMemory_halt {region : Region} {base : UInt64} {held : Bytes} {h : Halt}
    (hpath : (copyToMemory region base held).Path steps (.error (.halt h))) :
    held.length < region.len.toNat ∧ h = .indexOutOfBounds := by
  rcases path_copyToMemory hpath with ⟨hlt, -, hend⟩ | ⟨area, count, front, -, -, hend⟩
  · exact ⟨hlt, Stop.halt.inj (Except.error.inj hend)⟩
  · unfold readResult at hend
    split at hend <;> cases hend

/-- The window that was asked for at such a halt is a fault. -/
theorem fault_of_copyToMemory_halt {region : Region} {base : UInt64} {held : Bytes} {h : Halt}
    (hpath : (copyToMemory region base held).Path steps (.error (.halt h))) :
    Fault ⟨.window base region.len.toUInt64, .ok held⟩ h := by
  obtain ⟨hlt, rfl⟩ := length_lt_of_copyToMemory_halt hpath
  exact .window (by rwa [UInt32.toNat_toUInt64])

end Image

namespace Board
namespace BootConfig

variable {config : BootConfig}

/-- The stages that a board names. -/
def stages (config : BootConfig) : List StageSpec :=
  config.monitor :: (config.secureOs.toList.map (·.stage) ++ config.training.toList.map (·.stage))

theorem monitor_mem_stages (config : BootConfig) : config.monitor ∈ config.stages :=
  List.mem_cons_self

theorem secureOs_mem_stages {secureOs : SecureOsConfig} (h : config.secureOs = some secureOs) :
    secureOs.stage ∈ config.stages := by
  unfold stages
  rw [h]
  exact List.mem_cons_of_mem _ List.mem_cons_self

theorem training_mem_stages {code : TrainingConfig} (h : config.training = some code) :
    code.stage ∈ config.stages := by
  unfold stages
  rw [h]
  exact List.mem_cons_of_mem _ (List.mem_append_right _ List.mem_cons_self)

/-- The halt of a board that names a stage which the registry has no slot
for. -/
def Misindexes (config : BootConfig) (h : Halt) : Prop :=
  ∃ stage ∈ config.stages, Image.Misindexed config stage h

/-- Without verified boot an index means nothing. -/
theorem not_misindexes_of_unverified {h : Halt} (hverified : config.verifiedBoot = false) :
    ¬config.Misindexes h := by
  rintro ⟨stage, -, hverified', -⟩
  exact absurd (hverified.symm.trans hverified') Bool.false_ne_true

/-- A board all of whose stages have slots does not halt over them. -/
theorem not_misindexes_of_forall_lt {h : Halt}
    (hindex : ∀ stage ∈ config.stages, stage.index.toNat < 6) : ¬config.Misindexes h := by
  rintro ⟨stage, hstage, -, hle, -⟩
  exact absurd (hindex stage hstage) (Nat.not_lt.2 hle)

end BootConfig
end Board

end BootHandoff
