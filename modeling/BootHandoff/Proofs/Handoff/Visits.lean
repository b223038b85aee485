/-
# Whoever opens the flash closes it

Four calls can come to look at the flash, each through the code for the root key:

| call | its visit to the flash |
| --- | --- |
| reading the root key | the whole call |
| checking the root key | the whole call, if a digest was provisioned |
| filling the boot block | reading the root key, behind the chip's id and the memory layout |
| preparing a handoff | filling the boot block, if the board has one |

Each of them can end at many points, some of them in the middle of the visit: the flash
does not open, the block is not there, a mapping fails, a key is refused or the device
halts.  However it ends, the steps are a `Visit` (`Call.visit`), and so those of any
sequence of calls are `Bracketed` (`calls_bracketed`).
-/

import BootHandoff.Proofs.Handoff.Footprint
import BootHandoff.Proofs.Platform.Visit
import BootHandoff.Proofs.RootKey.View
import BootHandoff.Proofs.SecureOs.Course

namespace BootHandoff

open Platform

variable {steps : List Step}

namespace RootKey

variable {n : Nat}

theorem keepsOpen_of_locate {located : Except (Stop Error) Flash.Region}
    (h : locate.Path steps located) : ∀ step ∈ steps, step.query.KeepsOpen :=
  asks_locate (P := Query.KeepsOpen) trivial (fun _ _ => trivial) _ _ h

/-- **Reading the root key is a visit.** -/
theorem Reads.visit {buf t : Buffer n} {result : Except (Stop Error) Nat}
    (h : Reads buf steps result t) : Visit steps := by
  cases h with
  | unopened e => exact .ofRefusal e
  | missed hlocate | refused hlocate => exact .ofSession (keepsOpen_of_locate hlocate)
  | mapped hlocate hlen hcopied =>
    rw [List.append_cons]
    exact .ofSession (List.forall_mem_append.2
      ⟨keepsOpen_of_locate hlocate, List.forall_mem_singleton.2 trivial⟩)

/-- **Checking the root key is a visit,** if a digest was provisioned. -/
theorem Checks.visit {hash : Bytes → Buffer 32} {expected : Buffer 32}
    {result : Except (Stop Error) Unit} (h : Checks hash expected steps result) : Visit steps := by
  cases h with
  | unopened e => exact .ofRefusal e
  | missed hlocate => exact .ofSession (keepsOpen_of_locate hlocate)
  | mapped hlocate hlines =>
    refine .ofSession (List.forall_mem_append.2
      ⟨keepsOpen_of_locate hlocate, List.forall_mem_cons.2 ⟨trivial, fun step hstep => ?_⟩⟩)
    obtain ⟨level, text, hlog⟩ := hlines step hstep
    rw [hlog]
    trivial

end RootKey

/-- What is only for one other part of the platform leaves the flash alone. -/
theorem Platform.Part.Only.outside {p : Part} (h : p.Only steps) (hp : p ≠ .flash) :
    ∀ step ∈ steps, step.query.Outside :=
  fun step hstep => Query.outside_of_part (h step hstep ▸ hp)

namespace KeyStore

variable {decoder : Decoder} {n : Nat}

theorem outside_of_read {buf t : Buffer n} {result : Except (Stop Error) Nat}
    (h : (read decoder : Action (Buffer n) _ _).Path buf steps result t) :
    ∀ step ∈ steps, step.query.Outside := by
  intro step hstep
  refine Query.outside_of_part ?_
  rcases (SecureOs.frame_readKeyStore _ _ _ _ h).1 step hstep with ⟨-, hpart⟩ | ⟨-, hpart⟩
  · rw [hpart]
    nofun
  · rw [hpart]
    nofun

end KeyStore

namespace SecureOs

variable {decoder : KeyStore.Decoder} {place : UInt64} {config : Board.BootConfig}
  {args : Abi.ArgRegs} {t : Filling} {result : Except (Stop BootError) Unit}

/-- **Filling the boot block makes the visit of reading the root key.** -/
theorem Fills.visit (h : Fills decoder place config args steps result t) : Visit steps := by
  cases h with
  | unreported | unbounded | unplaced => exact .none (List.forall_mem_singleton.2 trivial)
  | unsurveyed hbounds hid hsurvey =>
    have hidentifying := (only_registers hid).outside nofun
    have hsurveying := hsurvey.only.outside nofun
    exact .cons trivial (.none (List.forall_mem_append.2 ⟨hidentifying, hsurveying⟩))
  | halted hbounds hid hsurvey hkey =>
    have hidentifying := (only_registers hid).outside nofun
    have hsurveying := hsurvey.only.outside nofun
    have hreading := (RootKey.reads_of_path hkey).visit
    exact .cons trivial (.append_left hidentifying (.append_left hsurveying hreading))
  | complete hbounds hid hsurvey hkey hstore =>
    have hidentifying := (only_registers hid).outside nofun
    have hsurveying := hsurvey.only.outside nofun
    refine .cons trivial (.append_left hidentifying (.append_left hsurveying ?_))
    refine .append_right (.append_right (RootKey.reads_of_path hkey).visit ?_) ?_
    · exact (only_rootKeyLines _).outside nofun
    · refine List.forall_mem_append.2 ⟨List.forall_mem_append.2 ⟨?_, ?_⟩, ?_⟩
      · exact KeyStore.outside_of_read hstore
      · exact (only_keyStoreLines _).outside nofun
      · exact List.forall_mem_singleton.2 trivial

end SecureOs

namespace Handoff

open SecureOs

variable {decoder : KeyStore.Decoder} {registry : Verified.Registry} {payload : Payload}
  {c t : Context}

theorem Loads.outside {q : Query} (h : Loads q) : q.Outside := by
  rcases h with h | rfl | h
  · cases q <;> trivial
  · trivial
  · cases q <;> trivial

theorem outside_of_load {config : Board.BootConfig} {stage : Board.StageSpec}
    {result : Except (Stop LoadError) Image.Loaded}
    (h : (Image.load config registry stage).Path steps result) :
    ∀ step ∈ steps, step.query.Outside :=
  fun step hstep => Loads.outside (.inl (Image.asks_load _ _ _ _ _ h step hstep))

theorem outside_of_loadSecureOs {config : Board.BootConfig} {secureOs : Board.SecureOsConfig}
    {result : Except (Stop BootError) UInt64}
    (h : (loadSecureOs config registry secureOs).Path steps result) :
    ∀ step ∈ steps, step.query.Outside :=
  fun step hstep => Loads.outside (asks_loadSecureOs _ _ _ _ _ h step hstep)

/-- Adjusting the entry point of the secure OS makes the visit of filling. -/
theorem Adjusts.visit {result : Except (Stop BootError) Unit}
    (h : Adjusts decoder c steps result t) : Visit steps := by
  cases h with
  | plain hextension => exact .none (List.forall_mem_nil _)
  | filled hextension hfill => exact (path_iff_fills.1 hfill).visit

/-- **Preparing a handoff makes the visit of the board's additions.** -/
theorem Course.visit {result : Except (Stop BootError) Jump}
    (h : Course decoder registry payload c steps result t) : Visit steps := by
  cases h with
  | late => exact .none (List.forall_mem_nil _)
  | noMonitor hphase hmonitor => exact .cons trivial (.none (outside_of_load hmonitor))
  | noSecureOs hphase hmonitor hsecureOs hload =>
    have hloads := outside_of_loadSecureOs hload
    exact .cons trivial (.append_left (outside_of_load hmonitor) (.cons trivial (.none hloads)))
  | notAdjusted hphase hmonitor hsecureOs hload hadjust =>
    have hloads := outside_of_loadSecureOs hload
    exact .cons trivial (.append_left (outside_of_load hmonitor)
      (.cons trivial (.append_left hloads (.cons trivial hadjust.visit))))
  | alone hphase hmonitor =>
    refine .cons trivial (.append_left (outside_of_load hmonitor) (.none ?_))
    simp [Query.Outside, entered, logged, cleaned]
  | complete hphase hmonitor hsecureOs hload hadjust =>
    have hloads := outside_of_loadSecureOs hload
    refine .cons trivial (.append_left (outside_of_load hmonitor)
      (.cons trivial (.append_left hloads (.cons trivial (hadjust.visit.append_right ?_)))))
    simp [Query.Outside, entered, logged, cleaned]

end Handoff

open Handoff SecureOs

/-- A call that can come to look at the flash, with what it is called on. -/
inductive Call where
  | readRootKey {n : Nat} (buf : Buffer n)
  | verifyRootKey (expected : Buffer 32)
  | fillBlock (place : UInt64) (config : Board.BootConfig) (filling : Filling)
  /-- The board adds nothing or the boot block: code of its own may do anything. -/
  | prepare (registry : Verified.Registry) (payload : Payload) (c : Context)
      (h : c.extension ≠ .custom)

namespace Call

variable {hash : Bytes → Buffer 32} {decoder : KeyStore.Decoder}

/-- What is run for a call, with the hash and the decoder that the firmware is built with. -/
def program (hash : Bytes → Buffer 32) (decoder : KeyStore.Decoder) : Call → Firmware Unit
  | readRootKey buf => RootKey.read.on buf >>= fun _ => pure ()
  | verifyRootKey expected => (RootKey.verifyWith hash expected).run >>= fun _ => pure ()
  | fillBlock place config filling => (fill decoder place config).on filling >>= fun _ => pure ()
  | prepare registry payload c _ =>
    (Handoff.prepare decoder registry payload).on c >>= fun _ => pure ()

/-- The steps of calls one after the other, each from the state that the one before it left
the platform in. -/
def traces (hash : Bytes → Buffer 32) (decoder : KeyStore.Decoder) {σ : Type} (m : Machine σ) :
    σ → List Call → List (List Step)
  | _, [] => []
  | u, call :: rest =>
    let done := (call.program hash decoder).run m u
    done.steps :: traces hash decoder m done.state rest

/-- **However a call ends, its steps are a visit.** -/
theorem visit {call : Call} (h : (call.program hash decoder).Path steps ()) : Visit steps := by
  cases call with
  | readRootKey buf =>
    obtain ⟨⟨result, t⟩, hpath, -⟩ := Firmware.path_map_iff.1 h
    exact (RootKey.reads_of_path hpath).visit
  | verifyRootKey expected =>
    obtain ⟨result, hpath, -⟩ := Firmware.path_map_iff.1 h
    by_cases hprovisioned : expected = Buffer.zero 32
    · subst hprovisioned
      obtain ⟨rfl, -⟩ := RootKey.path_verifyWith_zero.1 hpath
      exact .none (List.forall_mem_nil _)
    · exact (RootKey.checks_of_path hprovisioned hpath).visit
  | fillBlock place config filling =>
    obtain ⟨⟨result, t⟩, hpath, -⟩ := Firmware.path_map_iff.1 h
    exact (path_iff_fills.1 hpath).visit
  | prepare registry payload c hcustom =>
    obtain ⟨⟨result, t⟩, hpath, -⟩ := Firmware.path_map_iff.1 h
    exact (course_of_path hcustom hpath).visit

/-- The calls of a sequence make a visit each. -/
theorem visit_of_mem_traces {σ : Type} {m : Machine σ} {u : σ} {calls : List Call}
    (h : steps ∈ traces hash decoder m u calls) : Visit steps := by
  induction calls generalizing u with
  | nil => cases h
  | cons call rest ih =>
    rcases List.mem_cons.1 h with rfl | hrest
    · exact visit (Firmware.path_run m (call.program hash decoder) u)
    · exact ih hrest

/-- **Whoever opens the flash closes it.**  On every platform and in every sequence of calls,
whatever each of them comes to and whatever the hash and the decoder are, a call makes at most
one visit to the flash: it is closed once if it opened, and left alone from then on if it did
not, and only in between is the flash map or a mapping looked at.  So no visit reaches into
another call: from one end of the sequence to the other, nobody opens an open flash, and
nobody closes or looks at a closed one. -/
theorem calls_bracketed (hash : Bytes → Buffer 32) (decoder : KeyStore.Decoder) {σ : Type}
    (m : Machine σ) (u : σ) (calls : List Call) :
    (∀ steps ∈ traces hash decoder m u calls, Visit steps) ∧
      Bracketed (traces hash decoder m u calls).flatten := by
  have hvisits : ∀ steps ∈ traces hash decoder m u calls, Visit steps :=
    fun _ => visit_of_mem_traces
  exact ⟨hvisits, bracketed_flatten fun steps hsteps => (hvisits steps hsteps).bracketed⟩

end Call
end BootHandoff
