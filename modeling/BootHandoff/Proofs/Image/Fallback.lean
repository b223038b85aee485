/-
# A verified image that does not load is none

With verified boot there are three ways for a stage to have nothing verified: there is no
record, the slot is empty, or what the slot names does not load.  The first two differ in
nothing, as the registry says the same of them.  The third one has asked the flash, so it
can differ: by the call, by the line that reports its failure, and by what the call has done
to the flash.

`unverified` is what happens to a stage from there on.  It knows nothing of the registry any
more, so if the failed call leaves the flash as it was, the three ways go on as one
(`load_of_unloadable`).
-/

import BootHandoff.Proofs.Bench.Steady
import BootHandoff.Proofs.Image.Sources
import BootHandoff.Proofs.Platform.Parts
import BootHandoff.Proofs.Platform.Sameness

namespace BootHandoff

open Bench Board Platform Verified

namespace Verified

/-- The record with the size in one slot set to zero. -/
def Record.emptied (record : Record) (index : Nat) (h : index < 6) : Record :=
  { record with
    components := record.components.set index { record.components[index] with size := 0 } }

variable {record : Record} {index : UInt8} {c : Component}

namespace Registry

theorem lacks_unavailable : unavailable.Lacks index := .inl rfl

theorem lacks_emptied (h : index.toNat < 6) :
    (⟨some (record.emptied index.toNat h)⟩ : Registry).Lacks index := by
  refine .inr ⟨_, _, rfl, Vector.getElem?_eq_getElem h, ?_⟩
  simp [Record.emptied]

end Registry
end Verified

namespace Image

variable {σ : Type} {m : Machine σ} {u : σ} {config : BootConfig} {registry : Registry}
  {stage : StageSpec} {record : Record} {c : Component} {e : FlashError}

/-- The stage is loaded although nothing verified was found for it, or not at all. -/
def unverified (stage : StageSpec) : Task LoadError Loaded :=
  match stage.fallback with
  | .forbidden => fail (.verificationRequired stage.name)
  | .container => loadFromContainer stage

/-- **Whatever the registry lacks, it lacks in the same way.** -/
theorem load_of_lacks (hverified : config.verifiedBoot = true) (hindex : stage.index.toNat < 6)
    (h : registry.Lacks stage.index) : load config registry stage = unverified stage := by
  unfold load loadVerified
  rw [if_pos hverified, Registry.verified_of_lacks h hindex]
  rfl

/-- What the registry keeps is tried first. -/
theorem load_of_keeps (hverified : config.verifiedBoot = true) (h : registry.Keeps stage.index c) :
    load config registry stage =
      (liftM (loadComponent stage c) : Task LoadError (Option Loaded)) >>= fun
        | some loaded => pure loaded
        | none => unverified stage := by
  unfold load loadVerified
  rw [if_pos hverified, Registry.verified_of_keeps h]
  rfl

/-- The attempt to load what is in a slot, and the report that it has failed. -/
def failedAttempt (stage : StageSpec) (c : Component) (e : FlashError) : List Step :=
  [⟨.loadStageAt c.address, .error e⟩,
    logged .warn (s!"verified {stage.name} at {Text.hexPadded 8 c.address.toNat} " ++
      s!"failed to load: {e.message}")]

theorem path_failedAttempt :
    (loadComponent stage c).Path (failedAttempt stage c e) none :=
  .ask (.loadStageAt c.address) (.error e) (.ask (.log .warn _) () (.done none))

/-- **After the failed attempt there is nothing left of the registry.** -/
theorem run_load_of_failing (hverified : config.verifiedBoot = true)
    (h : registry.Keeps stage.index c)
    (hfails : (m.respond (.loadStageAt c.address) u).1 = .error e) :
    let r := (unverified stage).run.run m (m.after u (failedAttempt stage c e))
    (load config registry stage).run.run m u =
      ⟨r.value, r.state, failedAttempt stage c e ++ r.steps⟩ := by
  intro r
  have hrest : (unverified stage).Path r.steps r.value := Firmware.path_run m _ _
  have hpath : (load config registry stage).Path (failedAttempt stage c e ++ r.steps) r.value := by
    rw [load_of_keeps hverified h]
    exact Task.path_lift_bind_iff.2 ⟨_, _, none, rfl, path_failedAttempt, hrest⟩
  have hanswers : m.Answers u (failedAttempt stage c e ++ r.steps) :=
    Machine.answers_append.2 ⟨⟨hfails.symm, rfl, trivial⟩, Firmware.answers_run m _ _⟩
  rw [Firmware.run_eq_of_path hpath hanswers, Machine.after_append, ← Firmware.state_run]

/-- A query for the flash or for the log. -/
def FlashOrLog (q : Query) : Prop := q.part = .flash ∨ q.part = .log

theorem Fetches.flashOrLog {q : Query} (h : Fetches q) : FlashOrLog q := by
  cases q <;> first | exact .inl rfl | exact .inr rfl | cases h

theorem asks_unverified (stage : StageSpec) : (unverified stage).Asks Fetches := by
  unfold unverified
  split
  · exact Task.asks_fail _
  · exact asks_loadFromContainer stage

/-- What is not verified does not come from the registry. -/
theorem source_of_unverified {steps : List Step} {loaded : Loaded}
    (h : (unverified stage).Path steps (.ok loaded)) : loaded.source = .container := by
  unfold unverified at h
  split at h
  · cases (Task.path_fail_iff.1 h).2
  · rcases path_loadFromContainer h with ⟨entry, text, -, hloaded⟩ | ⟨e, text, -, ⟨⟩⟩
    rw [Except.ok.inj hloaded]

/-- **A verified image that does not load is as good as none.**  If the slot of a stage names
an image, the flash fails to load that and is then as it was, and writing to the log does not
change the flash either, then loading the stage ends as with that slot empty and as with no
record at all.  It asks for the same and logs the same but for the one failed attempt and its
report, which come first, and it leaves a flash that shows as the same.  In particular, what it
loads is never called verified. -/
theorem load_of_unloadable (hverified : config.verifiedBoot = true)
    (hindex : stage.index.toNat < 6) (hslot : record.components[stage.index.toNat] = c)
    (hsize : c.size ≠ 0) (hfails : (m.respond (.loadStageAt c.address) u).1 = .error e)
    (hleaves : m.SameOn FlashOrLog u (m.respond (.loadStageAt c.address) u).2)
    (hlog : ∀ text v, m.SameOn FlashOrLog v (m.respond (.log .warn text) v).2) :
    let run := fun registry => (load config registry stage).run.run m u
    let failing := run ⟨some record⟩
    ∀ registry ∈ [⟨some (record.emptied stage.index.toNat hindex)⟩, .unavailable],
      failing.value = (run registry).value ∧
      failing.steps = failedAttempt stage c e ++ (run registry).steps ∧
      m.SameOn FlashOrLog (run registry).state failing.state ∧
      ∀ loaded, failing.value = .ok loaded → loaded.source = .container := by
  intro run failing registry hregistry
  have hkeeps : (⟨some record⟩ : Registry).Keeps stage.index c :=
    ⟨record, rfl, Vector.getElem?_eq_some_iff.2 ⟨hindex, hslot⟩, hsize⟩
  have hlacks : registry.Lacks stage.index := by
    rcases List.mem_cons.1 hregistry with rfl | hunavailable
    · exact Registry.lacks_emptied hindex
    · rw [List.mem_singleton.1 hunavailable]
      exact Registry.lacks_unavailable
  have hsame : m.SameOn FlashOrLog u (m.after u (failedAttempt stage c e)) :=
    hleaves.trans (hlog _ _)
  have hasks : (unverified stage).run.Asks FlashOrLog :=
    (asks_unverified stage).mono fun _ => Fetches.flashOrLog
  obtain ⟨hvalue, hsteps, hstate⟩ := hsame.run hasks
  have hfailing : failing = _ := run_load_of_failing hverified hkeeps hfails
  have hrun : run registry = (unverified stage).run.run m u := by
    unfold run
    rw [load_of_lacks hverified hindex hlacks]
  rw [hfailing, hrun, ← hvalue, ← hsteps]
  refine ⟨rfl, rfl, hstate, fun loaded hloaded => ?_⟩
  have hpath : (unverified stage).Path ((unverified stage).run.run m u).steps (.ok loaded) :=
    hloaded ▸ Firmware.path_run m (unverified stage).run u
  exact source_of_unverified hpath

end Image

namespace Bench.Rig

/-- How many stages were loaded by offset no query of the bench tells. -/
theorem sameOn_offsetLoads (P : Query → Prop) (r : Rig) (count : Nat) :
    machine.SameOn P r { r with flash := { r.flash with offsetLoads := count } } := by
  refine Machine.sameOn_of_relation
    (R := fun r r' => ∃ count, r' = { r with flash := { r.flash with offsetLoads := count } })
    (fun q _ r r' ⟨count, hcount⟩ => ?_) ⟨count, rfl⟩
  subst hcount
  cases q with
  | openFlash =>
    simp only [machine, respond, FlashChip.open]
    split <;> exact ⟨rfl, count, rfl⟩
  | loadStageAt offset => exact ⟨rfl, count + 1, rfl⟩
  | _ => exact ⟨rfl, count, rfl⟩

end Bench.Rig

namespace Image

/-- On the stocked bench nothing is at the offset that the registry names for the secure
monitor, so the container's is loaded, as with that slot empty or without a record. -/
theorem load_of_unloadable_on_bench :
    let record : Record := ⟨0, 0, 0, Vector.replicate 6 ⟨0x60000, 0x2000⟩⟩
    let load := fun registry =>
      (load (Rig.config true) registry monitorStage).run.run Rig.machine Rig.stocked
    (load ⟨some record⟩).value = .ok ⟨0x40000000, .container⟩ ∧
    ∀ registry ∈ [⟨some (record.emptied 1 (by decide))⟩, .unavailable],
      (load ⟨some record⟩).value = (load registry).value ∧
      (load ⟨some record⟩).steps =
        failedAttempt monitorStage ⟨0x60000, 0x2000⟩ .loadFailed ++ (load registry).steps := by
  intro record load
  have hleaves : Rig.machine.SameOn FlashOrLog Rig.stocked
      (Rig.machine.respond (.loadStageAt 0x60000) Rig.stocked).2 := Rig.sameOn_offsetLoads _ _ 1
  have hlog : ∀ text v, Rig.machine.SameOn FlashOrLog v
      (Rig.machine.respond (.log .warn text) v).2 := fun _ v =>
    Rig.sameOn_offsetLoads _ v v.flash.offsetLoads
  have hverified : (Rig.config true).verifiedBoot = true := rfl
  have hslot : record.components[monitorStage.index.toNat] = ⟨0x60000, 0x2000⟩ :=
    Vector.getElem_replicate _
  have hfails : (Rig.machine.respond (.loadStageAt 0x60000) Rig.stocked).1 = .error .loadFailed :=
    rfl
  have hsame := load_of_unloadable hverified (by decide) hslot (by decide) hfails hleaves hlog
  refine ⟨?_, fun registry hregistry => ?_⟩
  · rw [(hsame .unavailable (List.mem_cons_of_mem _ List.mem_cons_self)).1]
    rfl
  · obtain ⟨hvalue, hsteps, -⟩ := hsame registry hregistry
    exact ⟨hvalue, hsteps⟩

end Image
end BootHandoff
