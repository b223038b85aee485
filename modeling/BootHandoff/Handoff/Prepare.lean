/-
# Preparing the handoff

The sequence is fixed: load the secure monitor; if the board has a secure OS,
load that; fill in the entry points and the parameters, with the board's
additions; clean everything that the secure monitor will read.  Every step can
fail, and a failure leaves the handoff in the phase in which it happened.
-/

import BootHandoff.Abi.SavedStatus
import BootHandoff.Handoff.Context
import BootHandoff.Image.Copy
import BootHandoff.Image.Load

namespace BootHandoff
namespace Handoff

open Abi Board Platform SecureOs Verified

/-- Enters a phase. -/
def enter {ε : Type} (phase : Phase) : Action Context ε Unit := do
  if (← get).phase ≤ phase then
    Firmware.log .debug s!"handoff: {phase.name}"
    modify fun c => { c with phase := phase }
  else halt .assertionFailed

/-- Copies the secure OS into the trusted carveout and returns its entry.
Whether it fits is settled before a byte is read. -/
def copySecureOs (config : BootConfig) (registry : Registry) (stage : StageSpec) :
    Task BootError UInt64 := do
  let region ← (Image.locate config registry stage).widen BootError.load
  let len := region.len.toUInt64
  let tz ← accept BootError.driver (← Firmware.carveout .tz)
  let address ← settle (placement tz config.monitorSizeMib len)
  let held ← accept BootError.driver (← Firmware.window address len)
  (Image.copyToMemory region address held).widen BootError.load
  Firmware.log .info <| s!"Loaded {len.toNat} bytes of {stage.name} from " ++
    s!"{Text.hexPadded 8 region.offset.toNat} to {Text.hex address.toNat}"
  return address

/-- Gets the secure OS into memory and returns its entry. -/
def loadSecureOs (config : BootConfig) (registry : Registry) (secureOs : SecureOsConfig) :
    Task BootError UInt64 :=
  match secureOs.load with
  | .stage => do
    let loaded ← (Image.load config registry secureOs.stage).widen BootError.load
    return loaded.entry
  | .raw => copySecureOs config registry secureOs.stage

/-- Gets the secure OS, if the board has one, into memory and returns its
entry. -/
def loadSecureOs? (registry : Registry) : Action Context BootError (Option UInt64) := do
  let config := (← get).config
  match config.secureOs with
  | none => return none
  | some secureOs =>
    enter .loadSecureOs
    return some (← loadSecureOs config registry secureOs)

/-- Lets the board adjust the entry point of the secure OS. -/
def adjustEntry (decoder : KeyStore.Decoder) : Action Context BootError Unit := do
  let c ← get
  match c.extension with
  | .none => return ()
  | .tlk place block =>
    let entry := { c.secureOsEntry with
      spsr := c.secureOsEntry.spsr ||| SavedStatus.return32.bits }
    let (result, filled) ← (fill decoder place c.config).on ⟨block, entry.args⟩
    set { c with
      extension := .tlk place filled.block
      secureOsEntry := { entry with args := filled.args } }
    settle result
  | .custom =>
    let (result, entry) ← Firmware.adjustSecureOs c.config c.secureOsEntry
    set { c with secureOsEntry := entry }
    accept id result

/-- Describes the secure OS at `pc` to the secure monitor. -/
def describeSecureOs (decoder : KeyStore.Decoder) (pc : UInt64) :
    Action Context BootError Unit := do
  let spsr := SavedStatus.exceptionsMasked ||| SavedStatus.returnTo 1
  modify fun c => { c with secureOsEntry := .entering secureWorld pc spsr.bits }
  adjustEntry decoder
  modify fun c => { c with monitorParams.secureOsEntry := c.places.secureOsEntry }

/-- Describes the payload to the secure monitor. -/
def describePayload {ε : Type} (payload : Payload) : Action Context ε Unit :=
  modify fun c =>
    let entry := EntryPoint.entering normalWorld payload.entry payload.spsr
    { c with
      payloadEntry := { entry with args.x0 := payload.arg }
      monitorParams.payloadEntry := c.places.payloadEntry }

/-- Lets the board add to the parameters of the secure monitor, and returns
the address of an extra structure, or zero. -/
def extendParams {ε : Type} : Action Context ε UInt64 := do
  let c ← get
  match c.extension with
  | .custom =>
    let (extra, params) ← Firmware.extendMonitorParams c.monitorParams
    set { c with monitorParams := params }
    return extra.getD 0
  | _ => return 0

/-- Cleans the structures that the secure monitor will read. -/
def cleanParams {ε : Type} (withSecureOs : Bool) : Action Context ε Unit := do
  let c ← get
  if withSecureOs then
    Firmware.clean EntryPoint.layout c.places.secureOsEntry c.secureOsEntry
  Firmware.clean MonitorParams.layout c.places.monitorParams c.monitorParams
  Firmware.clean EntryPoint.layout c.places.payloadEntry c.payloadEntry

/-- Loads the secure images and builds everything the secure monitor will
read, cleaned from the cache. -/
def prepare (decoder : KeyStore.Decoder) (registry : Registry) (payload : Payload) :
    Action Context BootError Jump := do
  enter .loadMonitor
  let config := (← get).config
  let monitor ← (Image.load config registry config.monitor).widen BootError.load
  modify fun c => { c with monitorParams := .fresh }
  let pc? ← loadSecureOs? registry
  enter .assembleParams
  match pc? with
  | some pc => describeSecureOs decoder pc
  | none => pure ()
  describePayload payload
  let platformParams ← extendParams
  enter .flushCache
  cleanParams pc?.isSome
  return ⟨monitor.entry, (← get).places.monitorParams, platformParams⟩

end Handoff
end BootHandoff
