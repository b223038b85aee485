/-
# The secrets decide nothing but themselves

Two platforms that agree on the drivers and the registers may differ in all that
the boot flash shows and in all the product data holds.  Filling does not come
out differently on them, but for the fields of the two secrets: it ends in the
same way, sets the same arguments, and asks the same of the drivers, the
registers and the processor (`Indistinguishable`).

A filling that gets past the memory layout has by then asked nothing but what the
two platforms have in common (`Surveyed`).  From there on it is told by what
reading each secret on its own gives (`Surveyed.run_eq`), and in that account
only the fields of the secrets and the log speak of them.
-/

import BootHandoff.Bench.Board
import BootHandoff.Proofs.Bench.Exact
import BootHandoff.Proofs.Layout.Faithful
import BootHandoff.Proofs.SecureOs.Course
import BootHandoff.Proofs.SecureOs.Halting
import Mathlib.Data.List.Basic

namespace BootHandoff

namespace SecureOs

open Bench Board Memory Platform

section Readings

variable {decoder : KeyStore.Decoder} {State : Part → Type}
  {parts parts' : (p : Part) → Machine (State p)} {u u' : (p : Part) → State p}
  {config : BootConfig} {tz : MibRange} {stop base : UInt64}
  {identifying surveying : List Step} {uid : ChipId.Uid} {block : BootBlock}

theorem path_keyReading {σ : Type} (m : Machine σ) (u : σ) :
    RootKey.read.Path (Buffer.zero 4096) (keyReading m u).steps (keyReading m u).value.1
      (keyReading m u).value.2 :=
  Action.path_run m RootKey.read _ u

theorem path_storeReading (decoder : KeyStore.Decoder) {σ : Type} (m : Machine σ) (u : σ) :
    (KeyStore.read decoder).Path (Buffer.zero 2048) (storeReading decoder m u).steps
      (storeReading decoder m u).value.1 (storeReading decoder m u).value.2 :=
  Action.path_run m (KeyStore.read decoder) _ u

/-- What a filling has found out before it turns to the secrets, on a platform
with these parts. -/
structure Surveyed (parts : (p : Part) → Machine (State p)) (u : (p : Part) → State p)
    (config : BootConfig) (tz : MibRange) (stop base : UInt64) (identifying surveying : List Step)
    (uid : ChipId.Uid) (block : BootBlock) : Prop where
  bounds : Bounds config tz stop base
  identifies : (ChipId.readUid : Task BootError _).Path identifying (.ok uid)
  surveys : Surveys (BootBlock.zero.withIdentity config uid) surveying (.ok ()) block
  registers : (parts .registers).Answers (u .registers) identifying
  drivers : (parts .drivers).Answers (u .drivers) (⟨.carveout .tz, .ok tz⟩ :: surveying)

/-- It is the same on every platform with the same drivers and registers. -/
theorem Surveyed.congr (h : Surveyed parts u config tz stop base identifying surveying uid block)
    (hregisters : Machine.SamePart parts parts' u u' .registers)
    (hdrivers : Machine.SamePart parts parts' u u' .drivers) :
    Surveyed parts' u' config tz stop base identifying surveying uid block :=
  { h with
    registers := hregisters.answers_iff.2 h.registers
    drivers := hdrivers.answers_iff.2 h.drivers }

variable {place : UInt64} {args : Abi.ArgRegs} {b filled : BootBlock}
  {key? : Except RootKey.Error Nat} {store? : Except KeyStore.Error Nat}

/-- The secrets may be read from any state of the platform in which the flash and
the product data are as they were before the filling. -/
theorem Surveyed.answers_completing {forKey forStore : List Step} {key : Buffer 4096}
    {store : Buffer 2048}
    (h : Surveyed parts u config tz stop base identifying surveying uid block)
    (hkey : RootKey.read.Path (Buffer.zero 4096) forKey (key?.mapError .error) key)
    (hstore : (KeyStore.read decoder).Path (Buffer.zero 2048) forStore
      (store?.mapError .error) store)
    (hforKey : (Machine.assemble parts).Answers u forKey)
    (hforStore : (Machine.assemble parts).Answers u forStore) :
    (Machine.assemble parts).Answers u
      (completing place tz identifying surveying forKey forStore key? store? filled) := by
  refine Machine.answers_assemble.2 fun p => ?_
  have hshare := history_completing place tz filled h.identifies h.surveys hkey hstore p
  cases p with
  | drivers => exact hshare ▸ h.drivers
  | registers => exact hshare ▸ h.registers
  | flash =>
    have hanswers := Machine.answers_assemble.1 hforKey .flash
    rw [(only_flash hkey).history] at hanswers
    exact hshare ▸ hanswers
  | productData =>
    have hanswers := Machine.answers_assemble.1 hforStore .productData
    exact hshare ▸ hanswers
  | log => exact Machine.answers_history_of_silent (.inl rfl)
  | processor => exact Machine.answers_history_of_silent (.inr rfl)
  | memory | code | clock => exact hshare ▸ trivial

/-- **The rest of a filling** is told by what reading each secret on its own
gives. -/
theorem Surveyed.run_eq (h : Surveyed parts u config tz stop base identifying surveying uid block)
    (hkey : (keyReading (.assemble parts) u).value.1 = key?.mapError .error)
    (hstore : (storeReading decoder (.assemble parts) u).value.1 = store?.mapError .error) :
    let r := ((fill decoder place config).on ⟨b, args⟩).run (.assemble parts) u
    let filled := (block.withRootKey key? (keyReading (.assemble parts) u).value.2).withKeyStore
      store? (storeReading decoder (.assemble parts) u).value.2
    r.value = (.ok (), ⟨filled, { args with
      x0 := stop - base, x1 := 0, x2 := place, x3 := magic }⟩) ∧
    r.steps = completing place tz identifying surveying (keyReading (.assemble parts) u).steps
      (storeReading decoder (.assemble parts) u).steps key? store? filled := by
  have hkeyPath := path_keyReading (.assemble parts) u
  rw [hkey] at hkeyPath
  have hstorePath := path_storeReading decoder (.assemble parts) u
  rw [hstore] at hstorePath
  have hfills : Fills decoder place config args _ _ _ :=
    .complete h.bounds h.identifies h.surveys hkeyPath hstorePath
  have hrun := Firmware.run_eq_of_path (hfills.path (s := ⟨b, args⟩)) (h.answers_completing hkeyPath
    hstorePath (Firmware.answers_run _ _ _) (Firmware.answers_run _ _ _))
  exact ⟨congrArg Outcome.value hrun, congrArg Outcome.steps hrun⟩

end Readings

end SecureOs
end BootHandoff
