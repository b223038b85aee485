/-
# The courses a handoff can take

A preparation goes one of six ways: it starts too late, it stops at the image
of the secure monitor, at that of the secure OS or at the board's additions, or
it succeeds, with a secure OS or without.  `Course` has each of them with all
its steps, its end and the state it leaves, and `course_of_path` says that
there are no others.

Statements about a handoff are proved by cases on its course, from what is
known of the parts: `Copied` for a secure OS that is copied, `Adjusts` for the
board's additions.  Code of the board's own is outside of all this.
-/

import BootHandoff.Handoff.Prepare
import BootHandoff.Proofs.Image.Copying
import BootHandoff.Proofs.Image.Sources
import BootHandoff.Proofs.SecureOs.Filling

namespace BootHandoff
namespace Handoff

open Abi Board Flash Platform SecureOs Verified

variable {decoder : KeyStore.Decoder} {registry : Registry} {payload : Payload}
  {config : BootConfig} {stage : StageSpec} {c t : Context} {steps : List Step}

/-- The step by which a handoff enters a phase. -/
def entered (phase : Phase) : Step := logged .debug s!"handoff: {phase.name}"

/-- The step by which a block is written out of the cache. -/
def cleaned (block : Block) : Step := ⟨.clean block, ()⟩

theorem path_enter_iff {ε : Type} {phase : Phase} {result : Except (Stop ε) Unit} :
    (enter phase : Action Context ε Unit).Path c steps result t ↔
      (c.phase ≤ phase ∧ steps = [entered phase] ∧ result = .ok () ∧
        t = { c with phase := phase }) ∨
      (¬c.phase ≤ phase ∧ steps = [] ∧ result = .error (.halt .assertionFailed) ∧ t = c) := by
  unfold enter
  rw [Action.path_get_bind_iff]
  split
  · rename_i hle
    rw [and_iff_right hle, or_iff_left fun h => h.1 hle]
    constructor
    · intro h
      obtain ⟨⟨⟩, rest, rfl, hrest⟩ := (Action.path_query_bind_iff (q := .log _ _)).1 h
      obtain ⟨rfl, rfl, rfl⟩ := Action.path_modify_iff.1 hrest
      exact ⟨rfl, rfl, rfl⟩
    · rintro ⟨rfl, rfl, rfl⟩
      exact (Action.path_query_bind_iff (q := .log _ _)).2
        ⟨(), [], rfl, Action.path_modify_iff.2 ⟨rfl, rfl, rfl⟩⟩
  · rename_i hnle
    rw [or_iff_right fun h => hnle h.1, and_iff_right hnle]
    exact Action.path_halt_iff

theorem path_enter_bind_iff {ε α : Type} {phase : Phase} {f : Unit → Action Context ε α}
    {result : Except (Stop ε) α} :
    (enter phase >>= f).Path c steps result t ↔
      (c.phase ≤ phase ∧ ∃ rest, steps = entered phase :: rest ∧
        (f ()).Path { c with phase := phase } rest result t) ∨
      (¬c.phase ≤ phase ∧ steps = [] ∧ result = .error (.halt .assertionFailed) ∧ t = c) := by
  rw [Action.path_bind_iff]
  constructor
  · rintro (⟨first, rest, ⟨⟩, u, rfl, henter, hrest⟩ | ⟨stop, henter, rfl⟩)
    · rcases path_enter_iff.1 henter with ⟨hle, rfl, -, rfl⟩ | ⟨-, -, ⟨⟩, -⟩
      exact .inl ⟨hle, rest, rfl, hrest⟩
    · rcases path_enter_iff.1 henter with ⟨-, -, ⟨⟩, -⟩ | ⟨hnle, rfl, hstop, rfl⟩
      obtain rfl := Except.error.inj hstop
      exact .inr ⟨hnle, rfl, rfl, rfl⟩
  · rintro (⟨hle, rest, rfl, hrest⟩ | ⟨hnle, rfl, rfl, rfl⟩)
    · exact .inl ⟨[entered phase], rest, (), _, rfl, path_enter_iff.2 (.inl ⟨hle, rfl, rfl, rfl⟩),
        hrest⟩
    · exact .inr ⟨_, path_enter_iff.2 (.inr ⟨hnle, rfl, rfl, rfl⟩), rfl⟩

/-- How a secure OS is copied, from the answer about the carveout on. -/
inductive Copied (config : BootConfig) (region : Region) :
    Except DriverError Memory.MibRange → List Step → Except (Stop BootError) UInt64 → Prop where
  | unreported (e : DriverError) : Copied config region (.error e) [] (.error (.error (.driver e)))
  | refused {tz : Memory.MibRange} {stop : Stop BootError}
      (hplace : placement tz config.monitorSizeMib region.len.toUInt64 = .error stop) :
      Copied config region (.ok tz) [] (.error stop)
  | denied {tz : Memory.MibRange} {address : UInt64}
      (hplace : placement tz config.monitorSizeMib region.len.toUInt64 = .ok address)
      (e : DriverError) :
      Copied config region (.ok tz) [⟨.window address region.len.toUInt64, .error e⟩]
        (.error (.error (.driver e)))
  | failed {tz : Memory.MibRange} {address : UInt64} {held : Bytes} {copying : List Step}
      {stop : Stop LoadError}
      (hplace : placement tz config.monitorSizeMib region.len.toUInt64 = .ok address)
      (hcopy : (Image.copyToMemory region address held).Path copying (.error stop)) :
      Copied config region (.ok tz) (⟨.window address region.len.toUInt64, .ok held⟩ :: copying)
        (.error (stop.map .load))
  | stored {tz : Memory.MibRange} {address : UInt64} {held : Bytes} {copying : List Step}
      (hplace : placement tz config.monitorSizeMib region.len.toUInt64 = .ok address)
      (hcopy : (Image.copyToMemory region address held).Path copying (.ok ())) (text : String) :
      Copied config region (.ok tz)
        (⟨.window address region.len.toUInt64, .ok held⟩ :: (copying ++ [logged .info text]))
        (.ok address)

theorem path_copySecureOs {result : Except (Stop BootError) UInt64}
    (h : (copySecureOs config registry stage).Path steps result) :
    (∃ stop, (Image.locate config registry stage).Path steps (.error stop) ∧
      result = .error (stop.map .load)) ∨
    ∃ forImage region answer rest, (Image.locate config registry stage).Path forImage (.ok region) ∧
      steps = forImage ++ ⟨.carveout .tz, answer⟩ :: rest ∧
      Copied config region answer rest result := by
  rcases Task.path_widen_bind_iff.1 h with
    ⟨forImage, rest, region, rfl, hlocate, hcarveout⟩ | ⟨stop, hlocate, rfl⟩
  · refine .inr ⟨forImage, region, ?_⟩
    obtain ⟨answer, rest, rfl, htz⟩ := (Task.path_query_bind_iff (q := .carveout .tz)).1 hcarveout
    refine ⟨answer, rest, hlocate, rfl, ?_⟩
    rcases Task.path_accept_bind_iff.1 htz with ⟨tz, rfl, hsettle⟩ | ⟨e, rfl, rfl, rfl⟩
    · rcases Task.path_settle_bind_iff.1 hsettle with
        ⟨address, hplace, hwindow⟩ | ⟨e, hplace, rfl, rfl⟩
      · obtain ⟨held?, rest, rfl, hheld⟩ :=
          (Task.path_query_bind_iff (q := .window address _)).1 hwindow
        rcases Task.path_accept_bind_iff.1 hheld with ⟨held, rfl, hgranted⟩ | ⟨e, rfl, rfl, rfl⟩
        · rcases Task.path_widen_bind_iff.1 hgranted with
            ⟨copying, rest, ⟨⟩, rfl, hcopy, hlog⟩ | ⟨stop, hcopy, rfl⟩
          · obtain ⟨⟨⟩, last, rfl, hend⟩ := (Task.path_query_bind_iff (q := .log _ _)).1 hlog
            obtain ⟨rfl, rfl⟩ := Task.path_pure_iff.1 hend
            exact .stored hplace hcopy _
          · exact .failed hplace hcopy
        · exact .denied hplace e
      · exact .refused hplace
    · exact .unreported e
  · exact .inl ⟨stop, hlocate, rfl⟩

theorem path_loadSecureOs {secureOs : SecureOsConfig} {result : Except (Stop BootError) UInt64}
    (h : (loadSecureOs config registry secureOs).Path steps result) :
    (secureOs.load = .stage ∧ ∃ loaded,
      (Image.load config registry secureOs.stage).Path steps loaded ∧
      result = (loaded.mapError (·.map .load)).map (·.entry)) ∨
    (secureOs.load = .raw ∧ (copySecureOs config registry secureOs.stage).Path steps result) := by
  unfold loadSecureOs at h
  cases hload : secureOs.load with
  | raw =>
    rw [hload] at h
    exact .inr ⟨rfl, h⟩
  | stage =>
    rw [hload] at h
    refine .inl ⟨rfl, ?_⟩
    rcases Task.path_widen_bind_iff.1 h with
      ⟨first, rest, loaded, rfl, hpath, hend⟩ | ⟨stop, hpath, rfl⟩
    · obtain ⟨rfl, rfl⟩ := Task.path_pure_iff.1 hend
      exact ⟨.ok loaded, by rwa [List.append_nil], rfl⟩
    · exact ⟨.error stop, hpath, rfl⟩

/-- How the board adjusts the entry point of the secure OS: not at all, or by
filling its boot block. -/
inductive Adjusts (decoder : KeyStore.Decoder) (c : Context) :
    List Step → Except (Stop BootError) Unit → Context → Prop where
  | plain (hextension : c.extension = .none) : Adjusts decoder c [] (.ok ()) c
  | filled {place : UInt64} {block : BootBlock} {steps : List Step}
      {result : Except (Stop BootError) Unit} {filling : Filling}
      (hextension : c.extension = .tlk place block)
      (hfill : (fill decoder place c.config).Path ⟨block, c.secureOsEntry.args⟩ steps result
        filling) :
      Adjusts decoder c steps result { c with
        extension := .tlk place filling.block
        secureOsEntry := { c.secureOsEntry with
          spsr := c.secureOsEntry.spsr ||| SavedStatus.return32.bits
          args := filling.args } }

theorem adjusts_of_path {result : Except (Stop BootError) Unit}
    (hcustom : c.extension ≠ .custom) (h : (adjustEntry decoder).Path c steps result t) :
    Adjusts decoder c steps result t := by
  unfold adjustEntry at h
  rw [Action.path_get_bind_iff] at h
  split at h
  · rename_i hextension
    obtain ⟨rfl, rfl, rfl⟩ := Action.path_pure_iff.1 h
    exact .plain hextension
  · rename_i place block hextension
    obtain ⟨first, rest, ⟨ending, filling⟩, rfl, hfill, hset⟩ := Action.path_lift_bind_iff.1 h
    obtain ⟨rfl, rfl, rfl⟩ := Action.path_settle_iff.1 (Action.path_set_bind_iff.1 hset)
    rw [List.append_nil]
    exact .filled hextension hfill
  · rename_i hextension
    exact absurd hextension hcustom

namespace Context

/-- The state in which the entry point of a secure OS at `pc` is adjusted. -/
def describing (c : Context) (pc : UInt64) : Context := { c with
  phase := .assembleParams
  monitorParams := .fresh
  secureOsEntry := .entering secureWorld pc
    (SavedStatus.exceptionsMasked ||| SavedStatus.returnTo 1).bits }

/-- The state in which a payload has been described, and everything that the
secure monitor reads is there. -/
def prepared (c : Context) (payload : Payload) : Context := { c with
  phase := .flushCache
  monitorParams.payloadEntry := c.places.payloadEntry
  payloadEntry :=
    { EntryPoint.entering normalWorld payload.entry payload.spsr with args.x0 := payload.arg } }

/-- The state in which the parameters of the secure monitor point at the entry
point of the secure OS. -/
def described (c : Context) : Context :=
  { c with monitorParams.secureOsEntry := c.places.secureOsEntry }

/-- The state in which a handoff without a secure OS describes the payload. -/
def assembling (c : Context) : Context :=
  { c with phase := .assembleParams, monitorParams := .fresh }

/-- The entry point of the secure OS as it lies in memory. -/
def secureOsBlock (c : Context) : Block :=
  ⟨c.places.secureOsEntry, EntryPoint.layout.write c.secureOsEntry⟩

/-- The parameters of the secure monitor as they lie in memory. -/
def paramsBlock (c : Context) : Block :=
  ⟨c.places.monitorParams, MonitorParams.layout.write c.monitorParams⟩

/-- The entry point of the payload as it lies in memory. -/
def payloadBlock (c : Context) : Block :=
  ⟨c.places.payloadEntry, EntryPoint.layout.write c.payloadEntry⟩

end Context

/-- The courses that a preparation can take from a state. -/
inductive Course (decoder : KeyStore.Decoder) (registry : Registry) (payload : Payload)
    (c : Context) :
    List Step → Except (Stop BootError) Jump → Context → Prop where
  | late (hphase : ¬c.phase ≤ .loadMonitor) :
      Course decoder registry payload c [] (.error (.halt .assertionFailed)) c
  | noMonitor {forMonitor : List Step} {stop : Stop LoadError} (hphase : c.phase ≤ .loadMonitor)
      (hmonitor : (Image.load c.config registry c.config.monitor).Path forMonitor (.error stop)) :
      Course decoder registry payload c (entered .loadMonitor :: forMonitor)
        (.error (stop.map .load)) { c with phase := .loadMonitor }
  | noSecureOs {forMonitor forSecureOs : List Step} {monitor : Image.Loaded}
      {secureOs : SecureOsConfig} {stop : Stop BootError} (hphase : c.phase ≤ .loadMonitor)
      (hmonitor : (Image.load c.config registry c.config.monitor).Path forMonitor (.ok monitor))
      (hsecureOs : c.config.secureOs = some secureOs)
      (hload : (loadSecureOs c.config registry secureOs).Path forSecureOs (.error stop)) :
      Course decoder registry payload c
        (entered .loadMonitor :: (forMonitor ++ entered .loadSecureOs :: forSecureOs))
        (.error stop) { c with phase := .loadSecureOs, monitorParams := .fresh }
  | notAdjusted {forMonitor forSecureOs adjusting : List Step} {monitor : Image.Loaded}
      {secureOs : SecureOsConfig} {pc : UInt64} {stop : Stop BootError} {t : Context}
      (hphase : c.phase ≤ .loadMonitor)
      (hmonitor : (Image.load c.config registry c.config.monitor).Path forMonitor (.ok monitor))
      (hsecureOs : c.config.secureOs = some secureOs)
      (hload : (loadSecureOs c.config registry secureOs).Path forSecureOs (.ok pc))
      (hadjust : Adjusts decoder (c.describing pc) adjusting (.error stop) t) :
      Course decoder registry payload c
        (entered .loadMonitor :: (forMonitor ++ entered .loadSecureOs ::
          (forSecureOs ++ entered .assembleParams :: adjusting)))
        (.error stop) t
  | alone {forMonitor : List Step} {monitor : Image.Loaded} {t : Context}
      (hphase : c.phase ≤ .loadMonitor)
      (hmonitor : (Image.load c.config registry c.config.monitor).Path forMonitor (.ok monitor))
      (hsecureOs : c.config.secureOs = none) (ht : t = c.assembling.prepared payload) :
      Course decoder registry payload c
        (entered .loadMonitor :: (forMonitor ++ [entered .assembleParams, entered .flushCache,
          cleaned t.paramsBlock, cleaned t.payloadBlock]))
        (.ok ⟨monitor.entry, c.places.monitorParams, 0⟩) t
  | complete {forMonitor forSecureOs adjusting : List Step} {monitor : Image.Loaded}
      {secureOs : SecureOsConfig} {pc : UInt64} {u t : Context} (hphase : c.phase ≤ .loadMonitor)
      (hmonitor : (Image.load c.config registry c.config.monitor).Path forMonitor (.ok monitor))
      (hsecureOs : c.config.secureOs = some secureOs)
      (hload : (loadSecureOs c.config registry secureOs).Path forSecureOs (.ok pc))
      (hadjust : Adjusts decoder (c.describing pc) adjusting (.ok ()) u)
      (ht : t = u.described.prepared payload) :
      Course decoder registry payload c
        (entered .loadMonitor :: (forMonitor ++ entered .loadSecureOs ::
          (forSecureOs ++ entered .assembleParams :: (adjusting ++ [entered .flushCache,
            cleaned t.secureOsBlock, cleaned t.paramsBlock, cleaned t.payloadBlock]))))
        (.ok ⟨monitor.entry, c.places.monitorParams, 0⟩) t

theorem path_extendParams_iff {ε : Type} {result : Except (Stop ε) UInt64}
    (hcustom : c.extension ≠ .custom) :
    (extendParams : Action Context ε UInt64).Path c steps result t ↔
      steps = [] ∧ result = .ok 0 ∧ t = c := by
  unfold extendParams
  rw [Action.path_get_bind_iff]
  split
  · rename_i hextension
    exact absurd hextension hcustom
  · exact Action.path_pure_iff

theorem path_cleanParams {ε : Type} {withSecureOs : Bool} {result : Except (Stop ε) Unit}
    (h : (cleanParams withSecureOs : Action Context ε Unit).Path c steps result t) :
    steps = (if withSecureOs then [cleaned c.secureOsBlock] else []) ++
      [cleaned c.paramsBlock, cleaned c.payloadBlock] ∧ result = .ok () ∧ t = c := by
  have hlast : ∀ {rest : List Step}, (do
      Firmware.clean MonitorParams.layout c.places.monitorParams c.monitorParams
      Firmware.clean EntryPoint.layout c.places.payloadEntry c.payloadEntry :
        Action Context ε Unit).Path c rest result t →
      rest = [cleaned c.paramsBlock, cleaned c.payloadBlock] ∧ result = .ok () ∧ t = c := by
    intro rest h
    obtain ⟨⟨⟩, last, rfl, hlast⟩ := (Action.path_query_bind_iff (q := .clean _)).1 h
    obtain ⟨⟨⟩, rfl, rfl, rfl⟩ := (Action.path_query_iff (q := .clean _)).1 hlast
    exact ⟨rfl, rfl, rfl⟩
  replace h := Action.path_get_bind_iff.1 h
  cases withSecureOs with
  | false => exact hlast h
  | true =>
    obtain ⟨⟨⟩, rest, rfl, hrest⟩ := (Action.path_query_bind_iff (q := .clean _)).1 h
    obtain ⟨rfl, hresult, ht⟩ := hlast hrest
    exact ⟨rfl, hresult, ht⟩

/-- Everything from the description of the payload on. -/
def finish (payload : Payload) (entry : UInt64) (withSecureOs : Bool) :
    Action Context BootError Jump := do
  describePayload payload
  let platformParams ← extendParams
  enter .flushCache
  cleanParams withSecureOs
  return ⟨entry, (← get).places.monitorParams, platformParams⟩

/-- Everything from the phase on in which the parameters are assembled. -/
def assemble (decoder : KeyStore.Decoder) (payload : Payload) (entry : UInt64)
    (pc? : Option UInt64) :
    Action Context BootError Jump := do
  enter .assembleParams
  match pc? with
  | some pc => describeSecureOs decoder pc
  | none => pure ()
  finish payload entry pc?.isSome

theorem path_finish {entry : UInt64} {withSecureOs : Bool}
    {result : Except (Stop BootError) Jump} (hcustom : c.extension ≠ .custom)
    (hphase : c.phase = .assembleParams)
    (h : (finish payload entry withSecureOs).Path c steps result t) :
    steps = entered .flushCache :: ((if withSecureOs then [cleaned t.secureOsBlock] else []) ++
      [cleaned t.paramsBlock, cleaned t.payloadBlock]) ∧
    result = .ok ⟨entry, c.places.monitorParams, 0⟩ ∧
    t = c.prepared payload := by
  replace h := Action.path_modify_bind_iff.1 h
  rcases Action.path_bind_iff.1 h with
    ⟨first, rest, zero, u, rfl, hextend, henter⟩ | ⟨stop, hextend, -⟩
  · obtain ⟨rfl, hzero, rfl⟩ := (path_extendParams_iff (by exact hcustom)).1 hextend
    obtain rfl := Except.ok.inj hzero
    rcases path_enter_bind_iff.1 henter with ⟨-, rest, rfl, hrest⟩ | ⟨hnle, -, -, -⟩
    · rcases Action.path_bind_iff.1 hrest with
        ⟨first, rest, ⟨⟩, u, rfl, hclean, hend⟩ | ⟨stop, hclean, -⟩
      · obtain ⟨rfl, -, rfl⟩ := path_cleanParams hclean
        replace hend := Action.path_get_bind_iff.1 hend
        obtain ⟨rfl, rfl, rfl⟩ := Action.path_pure_iff.1 hend
        rw [List.append_nil]
        exact ⟨rfl, rfl, rfl⟩
      · obtain ⟨-, ⟨⟩, -⟩ := path_cleanParams hclean
    · exact absurd (show c.phase ≤ .flushCache by rw [hphase]; decide) hnle
  · obtain ⟨-, ⟨⟩, -⟩ := (path_extendParams_iff (by exact hcustom)).1 hextend

theorem path_loadSecureOs? {result : Except (Stop BootError) (Option UInt64)}
    (hphase : c.phase ≤ .loadSecureOs) (h : (loadSecureOs? registry).Path c steps result t) :
    (c.config.secureOs = none ∧ steps = [] ∧ result = .ok none ∧ t = c) ∨
    ∃ secureOs forSecureOs loaded, c.config.secureOs = some secureOs ∧
      steps = entered .loadSecureOs :: forSecureOs ∧
      (loadSecureOs c.config registry secureOs).Path forSecureOs loaded ∧
      result = loaded.map some ∧ t = { c with phase := .loadSecureOs } := by
  replace h := Action.path_get_bind_iff.1 h
  dsimp only at h
  split at h
  · rename_i hsecureOs
    obtain ⟨rfl, rfl, rfl⟩ := Action.path_pure_iff.1 h
    exact .inl ⟨hsecureOs, rfl, rfl, rfl⟩
  · rename_i secureOs hsecureOs
    rcases path_enter_bind_iff.1 h with ⟨-, rest, rfl, hrest⟩ | ⟨hnle, -, -, -⟩
    · rcases Action.path_task_bind_iff.1 hrest with
        ⟨forSecureOs, last, pc, rfl, hload, hend⟩ | ⟨stop, hload, rfl, rfl⟩
      · obtain ⟨rfl, rfl, rfl⟩ := Action.path_pure_iff.1 hend
        rw [List.append_nil]
        exact .inr ⟨secureOs, forSecureOs, .ok pc, hsecureOs, rfl, hload, rfl, rfl⟩
      · exact .inr ⟨secureOs, rest, .error stop, hsecureOs, rfl, hload, rfl, rfl⟩
    · exact absurd hphase hnle

theorem path_describeSecureOs {pc : UInt64} {result : Except (Stop BootError) Unit}
    (hcustom : c.extension ≠ .custom)
    (h : (describeSecureOs decoder pc).Path c.assembling steps result t) :
    (∃ stop, Adjusts decoder (c.describing pc) steps (.error stop) t ∧ result = .error stop) ∨
    ∃ u, Adjusts decoder (c.describing pc) steps (.ok ()) u ∧ result = .ok () ∧
      t = u.described := by
  replace h := Action.path_modify_bind_iff.1 h
  rcases Action.path_bind_iff.1 h with
    ⟨first, rest, ⟨⟩, u, rfl, hadjust, hmodify⟩ | ⟨stop, hadjust, rfl⟩
  · obtain ⟨rfl, rfl, rfl⟩ := Action.path_modify_iff.1 hmodify
    rw [List.append_nil]
    exact .inr ⟨u, adjusts_of_path hcustom hadjust, rfl, rfl⟩
  · exact .inl ⟨stop, adjusts_of_path hcustom hadjust, rfl⟩

/-- Adjusting the entry point changes neither the kind of the board's addition
nor what the handoff was told before it. -/
theorem Adjusts.keeps {result : Except (Stop BootError) Unit}
    (h : Adjusts decoder c steps result t) :
    t.config = c.config ∧ t.places = c.places ∧ t.phase = c.phase ∧
      t.monitorParams = c.monitorParams ∧ (c.extension ≠ .custom → t.extension ≠ .custom) := by
  cases h with
  | plain hextension => exact ⟨rfl, rfl, rfl, rfl, id⟩
  | filled hextension hfill => exact ⟨rfl, rfl, rfl, rfl, fun _ => nofun⟩

theorem path_assemble_none {entry : UInt64} {result : Except (Stop BootError) Jump}
    (hcustom : c.extension ≠ .custom) (hphase : c.phase ≤ .assembleParams)
    (hfresh : c.monitorParams = .fresh)
    (h : (assemble decoder payload entry none).Path c steps result t) :
    steps = [entered .assembleParams, entered .flushCache, cleaned t.paramsBlock,
      cleaned t.payloadBlock] ∧
    result = .ok ⟨entry, c.places.monitorParams, 0⟩ ∧ t = c.assembling.prepared payload := by
  rcases path_enter_bind_iff.1 h with ⟨-, rest, rfl, hfinish⟩ | ⟨hnle, -, -, -⟩
  · obtain ⟨rfl, rfl, rfl⟩ := path_finish (by exact hcustom) rfl hfinish
    exact ⟨rfl, rfl, by unfold Context.assembling; rw [← hfresh]⟩
  · exact absurd hphase hnle

theorem path_assemble_some {entry pc : UInt64} {result : Except (Stop BootError) Jump}
    (hcustom : c.extension ≠ .custom) (hphase : c.phase ≤ .assembleParams)
    (hfresh : c.monitorParams = .fresh)
    (h : (assemble decoder payload entry (some pc)).Path c steps result t) :
    (∃ adjusting stop, Adjusts decoder (c.describing pc) adjusting (.error stop) t ∧
      steps = entered .assembleParams :: adjusting ∧ result = .error stop) ∨
    ∃ adjusting u, Adjusts decoder (c.describing pc) adjusting (.ok ()) u ∧
      steps = entered .assembleParams :: (adjusting ++ [entered .flushCache,
        cleaned t.secureOsBlock, cleaned t.paramsBlock, cleaned t.payloadBlock]) ∧
      result = .ok ⟨entry, c.places.monitorParams, 0⟩ ∧ t = u.described.prepared payload := by
  rcases path_enter_bind_iff.1 h with ⟨-, rest, rfl, hdescribe⟩ | ⟨hnle, -, -, -⟩
  · have hassembling : { c with phase := Phase.assembleParams } = c.assembling := by
      unfold Context.assembling
      rw [← hfresh]
    rw [hassembling] at hdescribe
    rcases Action.path_bind_iff.1 hdescribe with
      ⟨first, rest, ⟨⟩, u, rfl, hdescribe', hfinish⟩ | ⟨stop, hdescribe', rfl⟩
    · rcases path_describeSecureOs hcustom hdescribe' with ⟨_, -, ⟨⟩⟩ | ⟨v, hadjust, -, rfl⟩
      obtain ⟨-, hplaces, hphase', -, hkeeps⟩ := hadjust.keeps
      obtain ⟨rfl, rfl, rfl⟩ := path_finish (c := v.described) (hkeeps hcustom) hphase' hfinish
      refine .inr ⟨first, v, hadjust, rfl, ?_, rfl⟩
      show Except.ok (Jump.mk entry v.places.monitorParams 0) = _
      rw [hplaces]
      rfl
    · rcases path_describeSecureOs hcustom hdescribe' with ⟨stop', hadjust, hstop⟩ | ⟨_, -, ⟨⟩, -⟩
      obtain rfl := Except.error.inj hstop
      exact .inl ⟨rest, stop, hadjust, rfl, rfl⟩
  · exact absurd hphase hnle

/-- **There are no other courses.** -/
theorem course_of_path {result : Except (Stop BootError) Jump} (hcustom : c.extension ≠ .custom)
    (h : (prepare decoder registry payload).Path c steps result t) :
    Course decoder registry payload c steps result t := by
  rcases path_enter_bind_iff.1 h with ⟨hphase, rest, rfl, hget⟩ | ⟨hphase, rfl, rfl, rfl⟩
  · replace hget := Action.path_get_bind_iff.1 hget
    rcases Action.path_widen_bind_iff.1 hget with
      ⟨forMonitor, rest, monitor, rfl, hmonitor, hfresh⟩ | ⟨stop, hmonitor, rfl, rfl⟩
    · replace hfresh := Action.path_modify_bind_iff.1 hfresh
      rcases Action.path_bind_iff.1 hfresh with
        ⟨loading, rest, pc?, u, rfl, hload?, hassemble⟩ | ⟨stop, hload?, rfl⟩
      · replace hassemble : (assemble decoder payload monitor.entry pc?).Path u rest result t :=
          hassemble
        rcases path_loadSecureOs? (show Phase.loadMonitor ≤ .loadSecureOs by decide) hload? with
          ⟨hsecureOs, rfl, hpc, rfl⟩ |
          ⟨secureOs, forSecureOs, loaded, hsecureOs, rfl, hload, hpc, rfl⟩
        · obtain rfl := Except.ok.inj hpc
          obtain ⟨rfl, rfl, ht⟩ := path_assemble_none (by exact hcustom)
            (show Phase.loadMonitor ≤ .assembleParams by decide) rfl hassemble
          exact .alone hphase hmonitor hsecureOs ht
        · cases loaded with
          | error stop => cases hpc
          | ok pc =>
            obtain rfl := Except.ok.inj hpc
            rcases path_assemble_some (by exact hcustom)
                (show Phase.loadSecureOs ≤ .assembleParams by decide) rfl hassemble with
              ⟨adjusting, stop, hadjust, rfl, rfl⟩ | ⟨adjusting, v, hadjust, rfl, rfl, ht⟩
            · exact .notAdjusted hphase hmonitor hsecureOs hload hadjust
            · exact .complete hphase hmonitor hsecureOs hload hadjust ht
      · rcases path_loadSecureOs? (show Phase.loadMonitor ≤ .loadSecureOs by decide) hload? with
          ⟨-, -, ⟨⟩, -⟩ | ⟨secureOs, forSecureOs, loaded, hsecureOs, rfl, hload, hstop, rfl⟩
        cases loaded with
        | ok pc => cases hstop
        | error stop' =>
          obtain rfl := Except.error.inj hstop
          exact .noSecureOs hphase hmonitor hsecureOs hload
    · exact .noMonitor hphase hmonitor
  · exact .late hphase

/-- A preparation on a platform that came to this has taken a course to it. -/
theorem course_of_run {σ : Type} {m : Machine σ} {s : σ} {result : Except (Stop BootError) Jump}
    (hcustom : c.extension ≠ .custom)
    (h : (((prepare decoder registry payload).on c).run m s).value.1 = result) :
    let r := ((prepare decoder registry payload).on c).run m s
    Course decoder registry payload c r.steps result r.value.2 :=
  h ▸ course_of_path hcustom (Action.path_run m (prepare decoder registry payload) c s)

end Handoff
end BootHandoff
