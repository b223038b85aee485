/-
# What a filling that fails leaves

Filling wipes the block first, asks the drivers and reads the chip's id, and only then
turns to the secrets.  Every error comes before that: the secrets themselves are optional,
and one that cannot be had is no error.  So a filling that fails leaves neither the
secrets of an earlier filling nor new ones, has asked neither the flash nor the product
data for any, and has cleaned nothing (`Fills.of_error`).

The arguments are set at the very end.  The registers are written while the fuses are
read, which puts back what it changed; with `ReadsBack` that holds on every platform on
which a register reads back what was written (`Fills.file_after`), however filling ends.
-/

import BootHandoff.Proofs.Bench.Steady
import BootHandoff.Proofs.Platform.Registers
import BootHandoff.Proofs.SecureOs.Refilling

namespace BootHandoff
namespace SecureOs

open Board Platform

variable {decoder : KeyStore.Decoder} {place : UInt64} {config : BootConfig}
  {args : Abi.ArgRegs} {steps : List Step} {result : Except (Stop BootError) Unit} {t : Filling}
  {b block : BootBlock}

/-- There is no secret in the block. -/
structure BootBlock.NoSecrets (b : BootBlock) : Prop where
  rootKeySize : b.rootKeySize = 0
  rootKey : b.rootKey = Buffer.zero 4096
  keyStoreSize : b.keyStoreSize = 0
  keyStore : b.keyStore = Buffer.zero 2048

theorem BootBlock.noSecrets_zero : BootBlock.zero.NoSecrets := ⟨rfl, rfl, rfl, rfl⟩

/-- Entering the chip's id enters no secret. -/
theorem BootBlock.NoSecrets.withIdentity (h : b.NoSecrets) (config : BootConfig)
    (uid : ChipId.Uid) : (b.withIdentity config uid).NoSecrets :=
  ⟨h.rootKeySize, h.rootKey, h.keyStoreSize, h.keyStore⟩

/-- Surveying enters no secret, however it ends. -/
theorem Surveys.noSecrets (h : Surveys b steps result block) (hb : b.NoSecrets) :
    block.NoSecrets := by
  obtain ⟨hkeySize, hkey, hstoreSize, hstore⟩ := hb
  cases h <;> exact ⟨hkeySize, hkey, hstoreSize, hstore⟩

/-- **A course of filling that ends in an error** has entered no secret and left the
arguments, and was about the drivers and the registers alone. -/
theorem Fills.of_error {e : BootError}
    (h : Fills decoder place config args steps (.error (.error e)) t) :
    t.args = args ∧ t.block.NoSecrets ∧
      ∀ step ∈ steps, step.query.part = .drivers ∨ step.query.part = .registers := by
  cases h with
  | unreported e =>
    exact ⟨rfl, BootBlock.noSecrets_zero, List.forall_mem_singleton.2 (.inl rfl)⟩
  | unplaced hstop hplace =>
    exact ⟨rfl, BootBlock.noSecrets_zero, List.forall_mem_singleton.2 (.inl rfl)⟩
  | unsurveyed hbounds hid hsurvey =>
    refine ⟨rfl, hsurvey.noSecrets (BootBlock.noSecrets_zero.withIdentity _ _), ?_⟩
    refine List.forall_mem_cons.2 ⟨.inl rfl, List.forall_mem_append.2 ⟨?_, ?_⟩⟩
    · exact fun step hstep => .inr (only_registers hid step hstep)
    · exact fun step hstep => .inl (hsurvey.only step hstep)

section Registers

variable {σ : Type} {m : Machine σ} {file : σ → RegisterFile} {u : σ}

/-- **A filling that fails leaves no secrets and disturbs nothing.**  On every platform
whose registers read back what was last written to them, whatever the block and the
arguments held before: if filling ends in an error, the arguments are what they were;
the block has neither the secrets of an earlier filling nor new ones; only the drivers
and the registers have been asked anything, so not the flash, not the product data, and
not the processor, which cleans the cache; and every register has the value it had. -/
theorem nothing_left_of_error (hreads : ReadsBack m file) (u : σ) (decoder : KeyStore.Decoder)
    (s : Filling) (place : UInt64) (config : BootConfig) (e : BootError) :
    let r := ((fill decoder place config).on s).run m u
    r.value.1 = .error (.error e) →
      r.value.2.args = s.args ∧ r.value.2.block.NoSecrets ∧
        (∀ p, p ≠ .drivers → p ≠ .registers → Part.history p r.steps = []) ∧
        file r.state = file u := by
  intro r he
  have hfills : Fills decoder place config s.args r.steps r.value.1 r.value.2 :=
    path_iff_fills.1 (Action.path_run m (fill decoder place config) s u)
  have hfile : file r.state = file u := by
    unfold r
    rw [Firmware.state_run]
    exact hfills.file_after hreads (Firmware.answers_run m _ u)
  rw [he] at hfills
  obtain ⟨hargs, hblock, hparts⟩ := hfills.of_error
  refine ⟨hargs, hblock, fun p hdrivers hregisters => ?_, hfile⟩
  refine Part.history_eq_nil_iff.2 fun step hstep => ?_
  rcases hparts step hstep with hpart | hpart
  · exact hpart ▸ hdrivers.symm
  · exact hpart ▸ hregisters.symm

/-- The hypotheses are satisfiable: a block with a root key and a key store from an
earlier filling, filled again on a board that still has both secrets, but whose drivers
know of no carveout for the security controller. -/
theorem nothing_left_of_error_on_bench :
    let provisioned := Bench.Rig.provisioned (Bytes.ofText "abc") "0a0B"
    let filling := fill KeyStore.decodeOver 0x4000 (Bench.Rig.config false)
    let filled := ((filling.on ⟨.zero, .zero⟩).run Bench.Rig.machine provisioned).value.2
    let rig : Bench.Rig :=
      { provisioned with soc := { Bench.Soc.small with tsec := .error (.carveout 7) } }
    let r := (filling.on filled).run Bench.Rig.machine rig
    (filled.block.rootKeySize = 3 ∧ filled.block.keyStoreSize = 2) ∧
      ReadsBack Bench.Rig.machine (fun r => r.registers.read) ∧
      r.value.1 = .error (.error (.driver (.carveout 7))) ∧ r.value.2.args = filled.args ∧
      r.value.2.block.NoSecrets ∧
      (∀ p, p ≠ .drivers → p ≠ .registers → Part.history p r.steps = []) ∧
      r.state.registers.read = rig.registers.read := by
  intro provisioned filling filled rig r
  have hfilled : filled.block.rootKeySize = 3 ∧ filled.block.keyStoreSize = 2 := by
    unfold filled filling provisioned
    decide +kernel
  have herror : r.value.1 = .error (.error (.driver (.carveout 7))) := by
    unfold r rig filled filling provisioned
    decide +kernel
  obtain ⟨hargs, hblock, hparts, hfile⟩ := nothing_left_of_error Bench.Rig.readsBack rig
    KeyStore.decodeOver filled 0x4000 (Bench.Rig.config false) (.driver (.carveout 7)) herror
  exact ⟨hfilled, Bench.Rig.readsBack, herror, hargs, hblock, hparts, hfile⟩

end Registers

end SecureOs
end BootHandoff
