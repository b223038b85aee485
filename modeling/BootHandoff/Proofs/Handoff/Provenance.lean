/-
# No image is unverified but by permission

With verified boot, an image may come from the container by name only if its
stage has that fallback and the registry has nothing usable for it.  Whose
image is asked for at some moment is told by the log: a handoff enters one
phase for each image, and `progress` is the phase it is in after some steps,
with what it did in that phase.

`provenance_of_verifiedBoot` says so for every run of a preparation and of the
training, and what follows for a stage without a fallback: if the run succeeds,
the image is the verified one.
-/

import BootHandoff.Proofs.Bench.Steady
import BootHandoff.Proofs.Handoff.Footprint
import BootHandoff.Proofs.Training.Code

namespace BootHandoff
namespace Handoff

open Bench Board Flash Platform Verified

variable {decoder : KeyStore.Decoder} {registry : Registry} {config : BootConfig}
  {stage : StageSpec} {mode : SecureOsLoad} {c t : Context} {steps : List Step}

/-- Every phase, in order. -/
def Phase.all : List Phase :=
  [init, loadMonitor, loadSecureOs, assembleParams, flushCache, disableMmu, transferControl]

/-- The phase that a handoff enters when it asks this, if it enters one. -/
def entered? : Query → Option Phase
  | .log .debug text => Phase.all.find? fun phase => text == s!"handoff: {phase.name}"
  | _ => none

/-- The phase that a handoff is in after some steps, and its steps in it. -/
def progress (steps : List Step) : Option Phase × List Step :=
  steps.foldl (fun now step =>
    match entered? step.query with
    | some phase => (some phase, [])
    | none => (now.1, now.2 ++ [step])) (none, [])

theorem entered?_entered (phase : Phase) : entered? (entered phase).query = some phase := by
  cases phase <;> rfl

theorem entered?_eq_none_of_fetches {q : Query} (h : Image.Fetches q) : entered? q = none := by
  unfold entered?
  split
  · cases h
  · rfl

theorem entered?_eq_none_of_loads {q : Query} (h : Loads q) : entered? q = none := by
  unfold entered?
  split
  · rcases h with ⟨⟨⟩⟩ | ⟨⟨⟩⟩ | ⟨⟨⟩⟩
  · rfl

theorem progress_append_entered (before : List Step) (phase : Phase) {since : List Step}
    (h : ∀ step ∈ since, entered? step.query = none) :
    progress (before ++ entered phase :: since) = (some phase, since) := by
  have hrest : ∀ done, since.foldl (fun now step =>
      match entered? step.query with
      | some phase => (some phase, [])
      | none => (now.1, now.2 ++ [step])) (some phase, done) = (some phase, done ++ since) := by
    induction since with
    | nil => exact fun done => by rw [List.append_nil]; rfl
    | cons step since ih =>
      intro done
      rw [List.foldl_cons, h step List.mem_cons_self]
      rw [ih fun step hstep => h step (List.mem_cons_of_mem _ hstep), List.append_assoc]
      rfl
  unfold progress
  rw [List.foldl_append, List.foldl_cons, entered?_entered]
  exact hrest []

/-- The stage whose image is got in a phase, and the way it is got. -/
def stageOf? (config : BootConfig) : Phase → Option (StageSpec × SecureOsLoad)
  | .loadMonitor => some (config.monitor, .stage)
  | .loadSecureOs => config.secureOs.map fun secureOs => (secureOs.stage, secureOs.load)
  | _ => none

/-- If a step of a handoff asks the container by name, it is for the stage of
the phase that the handoff is in, and it is justified by what was done in that
phase. -/
def Warranted (registry : Registry) (config : BootConfig) (before : List Step) (step : Step) :
    Prop :=
  step.query.NamesImage → ∃ phase stage mode, (progress before).1 = some phase ∧
    stageOf? config phase = some (stage, mode) ∧
    Image.Justified registry stage mode (progress before).2 step.query

theorem warranted_of_forall (h : ∀ step ∈ steps, ¬step.query.NamesImage) (before : List Step) :
    Throughout (fun earlier => Warranted registry config (before ++ earlier)) steps :=
  throughout_of_not h

/-- The part of a handoff that gets one image. -/
theorem warranted_of_justified {phase : Phase} (hstage : stageOf? config phase = some (stage, mode))
    (hsilent : ∀ step ∈ steps, entered? step.query = none)
    (h : Throughout (fun earlier step => step.query.NamesImage →
      Image.Justified registry stage mode earlier step.query) steps) (before : List Step) :
    Throughout (fun earlier => Warranted registry config (before ++ earlier))
      (entered phase :: steps) := by
  refine throughout_cons nofun ?_
  intro earlier step after hsplit hnames
  have hprogress := progress_append_entered before phase fun step hstep =>
    hsilent step (hsplit ▸ List.mem_append_left _ hstep)
  refine ⟨phase, stage, mode, ?_, hstage, ?_⟩
  · rw [hprogress]
  · rw [hprogress]
    exact h earlier step after hsplit hnames

theorem justified_of_path_loadSecureOs {secureOs : SecureOsConfig}
    {result : Except (Stop BootError) UInt64} (hverified : config.verifiedBoot = true)
    (h : (loadSecureOs config registry secureOs).Path steps result) :
    Throughout (fun earlier step => step.query.NamesImage →
      Image.Justified registry secureOs.stage secureOs.load earlier step.query) steps := by
  rcases path_loadSecureOs h with ⟨hstage, loaded, hload, -⟩ | ⟨hraw, hcopy⟩
  · rw [hstage]
    exact Image.justified_of_path_load hverified hload
  · rw [hraw]
    rcases path_copySecureOs hcopy with
      ⟨stop, hlocate, -⟩ | ⟨forImage, region, answer, rest, hlocate, rfl, hcopied⟩
    · exact Image.justified_of_path_locate hverified hlocate
    · refine throughout_append (Image.justified_of_path_locate hverified hlocate) ?_
      exact throughout_cons nofun
        (throughout_of_not fun step hstep => (hcopied.asks step hstep).not_namesImage)

/-- **On every course of a handoff the container is asked by name only as
warranted.** -/
theorem Course.warranted {payload : Payload} {result : Except (Stop BootError) Jump}
    (hverified : c.config.verifiedBoot = true)
    (h : Course decoder registry payload c steps result t) :
    Throughout (Warranted registry c.config) steps := by
  rcases h.cut with rfl | ⟨forMonitor, monitor, rest, rfl, hmonitor, hrest⟩
  · exact throughout_nil
  · have hstage : stageOf? c.config .loadMonitor = some (c.config.monitor, .stage) := rfl
    have hfirst := warranted_of_justified hstage
      (fun step hstep =>
        entered?_eq_none_of_fetches (Image.asks_load _ _ _ _ _ hmonitor step hstep))
      (Image.justified_of_path_load hverified hmonitor) []
    rw [← List.cons_append]
    refine throughout_append hfirst ?_
    rcases hrest with
      hassembles | ⟨secureOs, forSecureOs, loaded, last, hsecureOs, rfl, hload, hlast⟩
    · exact warranted_of_forall (fun step hstep => (hassembles step hstep).not_namesImage) _
    · have hstage : stageOf? c.config .loadSecureOs = some (secureOs.stage, secureOs.load) := by
        unfold stageOf?
        rw [hsecureOs]
        rfl
      have hsecond := warranted_of_justified hstage
        (fun step hstep => entered?_eq_none_of_loads (asks_loadSecureOs _ _ _ _ _ hload step hstep))
        (justified_of_path_loadSecureOs hverified hload) (entered .loadMonitor :: forMonitor)
      rw [← List.cons_append]
      refine throughout_append hsecond ?_
      simp only [← List.append_assoc]
      exact warranted_of_forall (fun step hstep => (hlast step hstep).not_namesImage) _

/-- In this phase the image in the slot at `address` was loaded, to be entered
at `entry`. -/
def LoadedIn (phase : Phase) (steps : List Step) (address : UInt32) (entry : UInt64) : Prop :=
  ∃ before after, steps = before ++ ⟨.loadStageAt address, .ok entry⟩ :: after ∧
    (progress before).1 = some phase

theorem loadedIn_of_forbidden {phase : Phase} {loaded : Image.Loaded} {after : List Step}
    (before : List Step) (hverified : config.verifiedBoot = true)
    (hforbidden : stage.fallback = .forbidden)
    (h : (Image.load config registry stage).Path steps (.ok loaded)) :
    ∃ slot, registry.Keeps stage.index slot ∧
      LoadedIn phase (before ++ entered phase :: (steps ++ after)) slot.address loaded.entry := by
  obtain ⟨slot, text, hkeeps, rfl⟩ := Image.path_load_of_forbidden hverified hforbidden h
  refine ⟨slot, hkeeps, before ++ [entered phase], logged .info text :: after, ?_, ?_⟩
  · rw [List.append_assoc]
    rfl
  · rw [progress_append_entered before phase (List.forall_mem_nil _)]

theorem Copied.reads {region : Region} {answer : Except DriverError Memory.MibRange} {pc : UInt64}
    (h : Copied config region answer steps (.ok pc)) :
    seen Query.read? steps = [(region.offset, region.len.toNat)] := by
  obtain ⟨tz, held, area, front, text, -, -, rfl⟩ := h.ok_cases
  rfl

/-- The secure OS of a preparation that succeeds, if it may not be unverified:
it is entered where its verified image was loaded, or copied from exactly its
slot. -/
theorem Course.verified_secureOs {payload : Payload} {jump : Jump} {secureOs : SecureOsConfig}
    (hverified : c.config.verifiedBoot = true) (hsecureOs : c.config.secureOs = some secureOs)
    (hforbidden : secureOs.stage.fallback = .forbidden)
    (h : Course decoder registry payload c steps (.ok jump) t) :
    ∃ slot, registry.Keeps secureOs.stage.index slot ∧
      match secureOs.load with
      | .stage => LoadedIn .loadSecureOs steps slot.address t.secureOsEntry.pc
      | .raw => seen Query.read? steps = [(slot.address, slot.size.toNat)] := by
  cases h with
  | alone hphase hmonitor hnone ht =>
    rw [hsecureOs] at hnone
    cases hnone
  | complete hphase hmonitor hsome hload hadjust ht =>
    rename_i forMonitor forSecureOs adjusting monitor other pc u
    rw [hsecureOs] at hsome
    obtain rfl := Option.some.inj hsome
    have hpc : t.secureOsEntry.pc = pc := by
      rw [ht]
      exact hadjust.pc
    rcases path_loadSecureOs hload with ⟨hstage, loaded, hload', hentry⟩ | ⟨hraw, hcopy⟩
    · rw [hstage]
      cases loaded with
      | error stop => cases hentry
      | ok image =>
        obtain rfl : pc = image.entry := Except.ok.inj hentry
        rw [hpc]
        exact loadedIn_of_forbidden (entered .loadMonitor :: forMonitor) hverified hforbidden
          hload'
    · rw [hraw]
      rcases path_copySecureOs hcopy with
        ⟨_, -, ⟨⟩⟩ | ⟨forImage, region, answer, rest, hlocate, rfl, hcopied⟩
      obtain ⟨slot, hkeeps, rfl⟩ := Image.path_locate_of_forbidden hverified hforbidden hlocate
      refine ⟨slot, hkeeps, ?_⟩
      have hfetched : seen Query.read? forMonitor = [] :=
        (Image.asks_load _ _ _).seen_eq_nil hmonitor fun _ h => h.keepsMemory.read
      have hlocated : seen Query.read? forImage = [] :=
        (Image.asks_locate _ _ _).seen_eq_nil hlocate fun _ h => h.keepsMemory.read
      have hadjusting : seen Query.read? adjusting = [] :=
        seen_eq_nil fun step hstep => (hadjust.asks step hstep).keepsMemory.read
      simp only [seen_cons, seen_append, hfetched, hlocated, hadjusting, hcopied.reads]
      rfl

/-- The secure monitor of a preparation that succeeds, if it may not be
unverified, is entered where its verified image was loaded. -/
theorem Course.verified_monitor {payload : Payload} {jump : Jump}
    (hverified : c.config.verifiedBoot = true)
    (hforbidden : c.config.monitor.fallback = .forbidden)
    (h : Course decoder registry payload c steps (.ok jump) t) :
    ∃ slot, registry.Keeps c.config.monitor.index slot ∧
      LoadedIn .loadMonitor steps slot.address jump.entry := by
  cases h with
  | alone hphase hmonitor hnone ht =>
    exact loadedIn_of_forbidden [] hverified hforbidden hmonitor
  | complete hphase hmonitor hsome hload hadjust ht =>
    exact loadedIn_of_forbidden [] hverified hforbidden hmonitor

/-- **With verified boot, no image is unverified but by permission.**  In every
run of a preparation and of the training, whatever the platform, the registry
and the payload, the container is asked by name only for the stage at hand,
only if that stage falls back to the container, and only when the registry has
nothing usable for it.  If the stage does not fall back and the run succeeds,
its image is the verified one. -/
theorem provenance_of_verifiedBoot {σ : Type} (m : Machine σ) (s : σ)
    (decoder : KeyStore.Decoder) (registry : Registry) (c : Context) (payload : Payload)
    {n : Nat} (place : UInt64) (area : Buffer n)
    (hverified : c.config.verifiedBoot = true) (hcustom : c.extension ≠ .custom) :
    let handoff := ((prepare decoder registry payload).on c).run m s
    let training := ((Training.run c.config registry place).on area).run m s
    Throughout (Warranted registry c.config) handoff.steps ∧
    (∀ jump, handoff.value.1 = .ok jump →
      (c.config.monitor.fallback = .forbidden →
        ∃ slot, registry.Keeps c.config.monitor.index slot ∧
          LoadedIn .loadMonitor handoff.steps slot.address jump.entry) ∧
      ∀ secureOs, c.config.secureOs = some secureOs → secureOs.stage.fallback = .forbidden →
        ∃ slot, registry.Keeps secureOs.stage.index slot ∧
          match secureOs.load with
          | .stage =>
            LoadedIn .loadSecureOs handoff.steps slot.address handoff.value.2.secureOsEntry.pc
          | .raw => seen Query.read? handoff.steps = [(slot.address, slot.size.toNat)]) ∧
    Throughout (fun before step => step.query.NamesImage →
      ∃ code, c.config.training = some code ∧
        Image.Justified registry code.stage .raw before step.query) training.steps ∧
    ∀ table, training.value.1 = .ok table →
      ∀ code, c.config.training = some code → code.stage.fallback = .forbidden →
        ∃ slot, registry.Keeps code.stage.index slot ∧
          seen Query.read? training.steps = [(slot.address, slot.size.toNat)] := by
  intro handoff training
  have hwarranted := (course_of_path hcustom
    (Action.path_run m (prepare decoder registry payload) c s)).warranted hverified
  have htraining := Action.path_run m (Training.run c.config registry place) area s
  refine ⟨hwarranted, fun jump hjump => ?_,
    Training.justified_of_path_run hverified htraining,
    fun table htable code hcode hforbidden => ?_⟩
  · have hcourse := course_of_run hcustom hjump
    exact ⟨fun hforbidden => hcourse.verified_monitor hverified hforbidden,
      fun secureOs hsecureOs hforbidden =>
        hcourse.verified_secureOs hverified hsecureOs hforbidden⟩
  · rw [show training.value.1 = .ok table from htable] at htraining
    exact Training.verified_of_path_run hverified hcode hforbidden htraining

/-- The hypotheses are satisfiable: on the bench a secure monitor that has to be a
verified one is loaded from its slot, and a secure OS without a slot is found by
its name. -/
theorem provenance_of_verifiedBoot_on_bench :
    let config := { Rig.config true with monitor := { monitorStage with fallback := .forbidden } }
    let c := Context.onBench config .none
    let registry := Registry.ofComponents [.absent, ⟨0x800, 0x100⟩]
    let handoff :=
      ((prepare KeyStore.decodeOver registry .onBench).on c).run Rig.machine Rig.stocked
    c.config.verifiedBoot = true ∧ c.extension ≠ .custom ∧
    (∃ step ∈ handoff.steps, step.query.NamesImage) ∧
    Throughout (Warranted registry c.config) handoff.steps ∧
    ∃ jump slot, handoff.value.1 = .ok jump ∧ registry.Keeps c.config.monitor.index slot ∧
      LoadedIn .loadMonitor handoff.steps slot.address jump.entry := by
  intro config c registry handoff
  have hcustom : c.extension ≠ .custom := nofun
  have hjump : handoff.value.1 = .ok ⟨0x40000000, 0x1000, 0⟩ := by
    unfold handoff c registry config
    rfl
  have hnames : ∃ step ∈ handoff.steps, step.query.NamesImage :=
    ⟨_, List.mem_of_getElem? (i := 5) rfl, trivial⟩
  obtain ⟨hwarranted, hverified, -⟩ := provenance_of_verifiedBoot Rig.machine Rig.stocked
    KeyStore.decodeOver registry c .onBench 0x80001000 (Buffer.zero 4) rfl hcustom
  obtain ⟨slot, hkeeps, hloaded⟩ := (hverified _ hjump).1 rfl
  exact ⟨rfl, hcustom, hnames, hwarranted, _, slot, hjump, hkeeps, hloaded⟩

end Handoff
end BootHandoff
