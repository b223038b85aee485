/-
# Filling the boot block

Filling rebuilds the block from nothing, so that nothing of an earlier filling
survives, even if this one ends early.  The memory layout and the chip's id are
required: an error there ends the filling.  The secrets are not: one that
cannot be had is logged and left out.  When the block is complete it is cleaned
from the cache, and the first four argument registers are set:

| register | value |
| --- | --- |
| `x0` | bytes of the trusted carveout from the secure OS on |
| `x1` | zero |
| `x2` | address of the block |
| `x3` | a magic number that says the block is there |

The key store is decoded by `decoder`, which may be any code.
-/

import BootHandoff.Abi.EntryPoint
import BootHandoff.KeyStore.Read
import BootHandoff.RootKey.Read
import BootHandoff.SecureOs.BootBlock
import BootHandoff.SecureOs.Placement

namespace BootHandoff
namespace SecureOs

open Board Platform

/-- The version of the block. -/
def blockVersion : UInt32 := 1

/-- The number that says there is a block. -/
def magic : UInt64 := 0xcafebabe

/-- The address of the block, if the argument registers say that there is one. -/
def blockPlace? (args : Abi.ArgRegs) : Option UInt64 :=
  if args.x3 = magic ∧ args.x2 ≠ 0 then some args.x2 else none

/-- What filling works on: the block, and the arguments of the secure OS. -/
structure Filling where
  block : BootBlock
  args : Abi.ArgRegs
  deriving DecidableEq, Inhabited

namespace Filling

/-- Changes the block. -/
def modifyBlock {ε : Type} (f : BootBlock → BootBlock) : Action Filling ε Unit :=
  modify fun s => { s with block := f s.block }

/-- Enters the chip's id and what goes before it. -/
def putIdentity (config : BootConfig) : Action Filling BootError Unit := do
  modifyBlock fun b => { b with version := blockVersion, uart := config.uart.number }
  let uid ← (ChipId.readUid : Task BootError ChipId.Uid)
  modifyBlock fun b => { b with chipId := uid }

/-- Enters the memory layout. -/
def putMemory : Action Filling BootError Unit := do
  let below ← accept BootError.driver (← Firmware.memoryBelow4G)
  modifyBlock fun b => { b with primaryBase := below.base, primarySize := below.size }
  match ← accept BootError.driver (← Firmware.memoryAbove4G) with
  | some above =>
    modifyBlock fun b => { b with extendedBase := above.base, extendedSize := above.size }
  | none => pure ()
  let tsec ← accept BootError.driver (← Firmware.carveout .tsec)
  modifyBlock fun b => { b with tsecBase := tsec.base, tsecSize := tsec.size }
  let unlocked ← Firmware.developerMode
  modifyBlock fun b => { b with unlocked := if unlocked then 1 else 0 }

/-- Enters the root key, or nothing in its place. -/
def putRootKey {ε : Type} : Action Filling ε Unit := do
  let read := RootKey.read.focus (fun s : Filling => s.block.rootKey)
    fun key s => { s with block.rootKey := key }
  match ← read.attempt with
  | .ok n => modifyBlock fun b => { b with rootKeySize := UInt32.ofNat n }
  | .error e =>
    Firmware.log .warn s!"keymaster key unavailable: {e.message}"
    modifyBlock fun b => { b with rootKey := Buffer.zero 4096, rootKeySize := 0 }

/-- Enters the encrypted key store, or nothing in its place. -/
def putKeyStore (decoder : KeyStore.Decoder) {ε : Type} : Action Filling ε Unit := do
  let read := (KeyStore.read decoder).focus (fun s : Filling => s.block.keyStore)
    fun store s => { s with block.keyStore := store }
  match ← read.attempt with
  | .ok n => modifyBlock fun b => { b with keyStoreSize := UInt32.ofNat n }
  | .error _ =>
    Firmware.log .warn "WARNING: No EKS"
    modifyBlock fun b => { b with keyStoreSize := 0 }

end Filling

/-- Fills the block, which lies at `place`, and points the arguments at it. -/
def fill (decoder : KeyStore.Decoder) (place : UInt64) (config : BootConfig) :
    Action Filling BootError Unit := do
  Filling.modifyBlock fun _ => BootBlock.zero
  let tz ← accept BootError.driver (← Firmware.carveout .tz)
  let stop ← check tz.stopAddress
  let base ← settle (placement tz config.monitorSizeMib 0)
  Filling.putIdentity config
  Filling.putMemory
  Filling.putRootKey
  Filling.putKeyStore decoder
  Firmware.clean BootBlock.layout place (← get).block
  let room ← check (orOverflow (Word.sub64? stop base))
  modify fun s => { s with args := { s.args with x0 := room, x1 := 0, x2 := place, x3 := magic } }

end SecureOs
end BootHandoff
