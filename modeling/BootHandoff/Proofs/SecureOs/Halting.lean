/-
# When filling the boot block halts

Filling believes two answers of the platform without a check: that the end of
the trusted carveout is an address, and that a mapping for the root key is no
longer than asked.  Everything else that could halt has been ruled out before
it is computed: the pieces of the chip's id fit, the key was compared with the
room for it, and the secure OS starts before the carveout ends.
-/

import BootHandoff.Proofs.ChipId.Packing
import BootHandoff.Proofs.Platform.Faults
import BootHandoff.Proofs.SecureOs.Filling

namespace BootHandoff

open Board Flash Platform

variable {decoder : KeyStore.Decoder} {own : Halt → Prop} {n : Nat}

/-- The carveout is to blame for an end of it that is no address. -/
theorem Memory.MibRange.fault_of_stopAddress {tz : MibRange} {h : Halt}
    (hstop : tz.stopAddress = .error h) : Fault ⟨.carveout .tz, .ok tz⟩ h := by
  obtain ⟨rfl, hfinish⟩ := stopAddress_eq_error_iff.1 hstop
  exact .carveout hfinish

/-- The carveout is to blame for a placement that halts. -/
theorem SecureOs.fault_of_placement {tz : Memory.MibRange} {reserved len : UInt64} {h : Halt}
    (hplace : placement tz reserved len = .error (.halt h)) :
    Fault ⟨.carveout .tz, .ok tz⟩ h := by
  obtain ⟨rfl, -, hfinish⟩ := placement_eq_halt_iff.1 hplace
  exact .carveout hfinish

theorem ChipId.haltsOnly_readUid {ε : Type} : (readUid : Task ε Uid).HaltsOnly own := by
  refine Task.haltsOnly_lift_bind fun fuses => Task.haltsOnly_check fun h hpack => ?_
  obtain ⟨uid, huid⟩ := exists_pack_eq_ok fits_of_mem_pieces fuses
  rw [huid] at hpack
  cases hpack

namespace RootKey

/-- The room for the key was compared with the length that is then asked for,
so only a mapping longer than that is too long for it. -/
theorem haltsOnly_read : (read : Action (Buffer n) Error Nat).HaltsOnly own := by
  intro buf steps h t hpath
  cases reads_of_path hpath with
  | @mapped first region mapped _ _ hlocate hlen hcopied =>
    cases mapped with
    | error e => cases hcopied
    | ok key =>
      rw [copied_ok] at hcopied
      split at hcopied
      · cases hcopied
      · rename_i hlong
        obtain ⟨rfl, rfl⟩ : h = .indexOutOfBounds ∧ t = buf := by simpa using hcopied
        have hmapping : region.len.toNat < key.length := by omega
        exact .inr ⟨⟨.mapFlash region.offset region.len, .ok key⟩, by simp, .mapping hmapping⟩

end RootKey

theorem KeyStore.haltsOnly_read : (read decoder : Action (Buffer n) Error Nat).HaltsOnly own := by
  intro buf steps h t hpath
  obtain ⟨_, ⟨-, _, ⟨⟩⟩ | ⟨_, _, _, -, ⟨⟩⟩⟩ := path_read hpath

namespace SecureOs
namespace Filling

theorem haltsOnly_modifyBlock {ε : Type} (f : BootBlock → BootBlock) :
    (modifyBlock f : Action Filling ε Unit).HaltsOnly own :=
  Action.haltsOnly_modify _

theorem haltsOnly_putIdentity (config : BootConfig) : (putIdentity config).HaltsOnly own :=
  Action.haltsOnly_bind (haltsOnly_modifyBlock _) fun _ =>
    Action.haltsOnly_bind (Action.haltsOnly_task ChipId.haltsOnly_readUid) fun _ =>
    haltsOnly_modifyBlock _

theorem haltsOnly_putCarveout : putCarveout.HaltsOnly own :=
  Action.haltsOnly_lift_bind fun _ => Action.haltsOnly_bind (Action.haltsOnly_accept _ _) fun _ =>
    Action.haltsOnly_bind (haltsOnly_modifyBlock _) fun _ =>
    Action.haltsOnly_lift_bind fun _ => haltsOnly_modifyBlock _

theorem haltsOnly_putMemory : putMemory.HaltsOnly own := by
  rw [putMemory_eq]
  exact Action.haltsOnly_lift_bind fun _ =>
    Action.haltsOnly_bind (Action.haltsOnly_accept _ _) fun _ =>
    Action.haltsOnly_bind (haltsOnly_modifyBlock _) fun _ => Action.haltsOnly_lift_bind fun _ =>
    Action.haltsOnly_bind (Action.haltsOnly_accept _ _) fun _ =>
    Action.haltsOnly_bind (haltsOnly_modifyBlock _) fun _ => haltsOnly_putCarveout

theorem haltsOnly_putRootKey {ε : Type} : (putRootKey : Action Filling ε Unit).HaltsOnly own := by
  refine Action.haltsOnly_bind
    (Action.haltsOnly_attempt (Action.haltsOnly_focus RootKey.haltsOnly_read)) fun result => ?_
  split
  · exact haltsOnly_modifyBlock _
  · exact Action.haltsOnly_lift_bind fun _ => haltsOnly_modifyBlock _

theorem haltsOnly_putKeyStore {ε : Type} :
    (putKeyStore decoder : Action Filling ε Unit).HaltsOnly own := by
  refine Action.haltsOnly_bind
    (Action.haltsOnly_attempt (Action.haltsOnly_focus KeyStore.haltsOnly_read)) fun result => ?_
  split
  · exact haltsOnly_modifyBlock _
  · exact Action.haltsOnly_lift_bind fun _ => haltsOnly_modifyBlock _

end Filling

theorem haltsOnly_pointAtBlock {place stop base : UInt64} (hle : base ≤ stop) :
    (pointAtBlock place stop base).HaltsOnly own := by
  rw [pointAtBlock_eq hle]
  exact Action.haltsOnly_get_bind fun _ =>
    Action.haltsOnly_lift_bind fun _ => Action.haltsOnly_modify _

theorem haltsOnly_gather {config : BootConfig} {place stop base : UInt64} (hle : base ≤ stop) :
    (gather decoder config place stop base).HaltsOnly own :=
  Action.haltsOnly_bind (Filling.haltsOnly_putIdentity config) fun _ =>
    Action.haltsOnly_bind Filling.haltsOnly_putMemory fun _ =>
    Action.haltsOnly_bind Filling.haltsOnly_putRootKey fun _ =>
    Action.haltsOnly_bind Filling.haltsOnly_putKeyStore fun _ => haltsOnly_pointAtBlock hle

/-- **Filling halts only over a fault of the platform.** -/
theorem haltsOnly_fill (decoder : KeyStore.Decoder) (place : UInt64) (config : BootConfig) :
    (fill decoder place config).HaltsOnly own := by
  intro s steps h t hpath
  obtain ⟨answer, rest, rfl, htz⟩ := (Action.path_query_bind_iff (q := .carveout .tz)).1 hpath
  rcases Action.path_accept_bind_iff.1 htz with ⟨tz, rfl, hlimit⟩ | ⟨e, -, -, ⟨⟩, -⟩
  have hblame : ∀ {h'}, Fault ⟨.carveout .tz, .ok tz⟩ h' → h' = h →
      own h ∨ ∃ step ∈ (⟨.carveout .tz, .ok tz⟩ :: rest : List Step), Fault step h := by
    rintro _ hfault rfl
    exact .inr ⟨_, List.mem_cons_self, hfault⟩
  rcases Action.path_check_bind_iff.1 hlimit with ⟨stop, hstop, hplace⟩ | ⟨h', hstop, -, hend, -⟩
  · rcases Action.path_settle_bind_iff.1 hplace with ⟨base, hbase, hrest⟩ | ⟨e, hbase, -, hend, -⟩
    · have hle : base ≤ stop := le_of_placement hbase hstop
      exact blame_append_left [_] (haltsOnly_gather hle _ _ _ _ hrest)
    · obtain rfl := Except.error.inj hend
      exact hblame (fault_of_placement hbase) rfl
  · exact hblame (Memory.MibRange.fault_of_stopAddress hstop)
      (Stop.halt.inj (Except.error.inj hend)).symm

end SecureOs
end BootHandoff
