/-
# Where images come from

Every way to get at an image, step by step.  With verified boot the registry
decides: an image that it keeps is loaded from its slot or found there, and
only what it lacks, or keeps but cannot load, is a matter for the container.

`Justified` is the condition under which the container may be asked by name.
`justified_of_path_load` and `justified_of_path_locate` say that it holds at
every such call, and `path_load_of_forbidden` and `path_locate_of_forbidden`
what a stage gets that has no fallback.
-/

import BootHandoff.Image.Copy
import BootHandoff.Image.Load
import BootHandoff.Proofs.Platform.Asks
import BootHandoff.Proofs.Platform.Trace
import BootHandoff.Proofs.Verified.Slot

namespace BootHandoff
namespace Image

open Board Flash Platform Verified

variable {config : BootConfig} {registry : Registry} {stage : StageSpec} {steps : List Step}

/-- The queries of the loader. -/
def Fetches : Query → Prop
  | .loadStage _ | .loadStageAt _ | .locateFile _ | .log .info _ | .log .warn _ => True
  | _ => False

theorem Fetches.keepsMemory {q : Query} (h : Fetches q) : q.KeepsMemory := by
  cases q <;> first | exact ⟨rfl, rfl, rfl⟩ | cases h

theorem Fetches.processor?_eq_none {q : Query} (h : Fetches q) : q.processor? = none := by
  cases q <;> first | rfl | cases h

theorem Fetches.train?_eq_none {q : Query} (h : Fetches q) : q.train? = none := by
  cases q <;> first | rfl | cases h

/-- The steps after which there is nothing verified to load. -/
inductive Unverified (registry : Registry) (stage : StageSpec) : List Step → Prop where
  | lacking (h : registry.Lacks stage.index) : Unverified registry stage []
  | failing {c : Component} (h : registry.Keeps stage.index c) (e : FlashError) (text : String) :
    Unverified registry stage [⟨.loadStageAt c.address, .error e⟩, logged .warn text]

theorem Unverified.not_namesImage (h : Unverified registry stage steps) :
    ∀ step ∈ steps, ¬step.query.NamesImage := by
  cases h with
  | lacking hlacks => exact List.forall_mem_nil _
  | failing hkeeps e text =>
    exact List.forall_mem_cons.2 ⟨id, List.forall_mem_singleton.2 id⟩

theorem path_loadComponent {c : Component} {loaded? : Option Loaded}
    (h : (loadComponent stage c).Path steps loaded?) :
    (∃ entry text, steps = [⟨.loadStageAt c.address, .ok entry⟩, logged .info text] ∧
      loaded? = some ⟨entry, .verified c.address c.size⟩) ∨
    ∃ e text, steps = [⟨.loadStageAt c.address, .error e⟩, logged .warn text] ∧
      loaded? = none := by
  obtain ⟨e | entry, rest, rfl, hlog⟩ :=
    (Firmware.path_ask_iff (q := .loadStageAt c.address)).1 h <;>
    obtain ⟨⟨⟩, last, rfl, hend⟩ := (Firmware.path_ask_iff (q := .log _ _)).1 hlog <;>
    obtain ⟨rfl, rfl⟩ := Firmware.path_pure_iff.1 hend
  · exact .inr ⟨e, _, rfl, rfl⟩
  · exact .inl ⟨entry, _, rfl, rfl⟩

theorem path_loadVerified {result : Except (Stop LoadError) (Option Loaded)}
    (h : (loadVerified registry stage).Path steps result) :
    (steps = [] ∧ result = .error (.halt .assertionFailed)) ∨
    (Unverified registry stage steps ∧ result = .ok none) ∨
    ∃ c entry text, registry.Keeps stage.index c ∧
      steps = [⟨.loadStageAt c.address, .ok entry⟩, logged .info text] ∧
      result = .ok (some ⟨entry, .verified c.address c.size⟩) := by
  rcases registry.verified_cases stage.index with
    ⟨-, hslot⟩ | ⟨hlacks, hslot⟩ | ⟨c, hkeeps, hslot⟩ <;>
    rcases Task.path_check_bind_iff.1 h with ⟨slot, hslot', hrest⟩ | ⟨halt, hslot', rfl, rfl⟩ <;>
    rw [hslot] at hslot' <;> cases hslot'
  · exact .inl ⟨rfl, rfl⟩
  · obtain ⟨rfl, rfl⟩ := Task.path_pure_iff.1 hrest
    exact .inr (.inl ⟨.lacking hlacks, rfl⟩)
  · obtain ⟨loaded?, hload, rfl⟩ := Task.path_lift_iff.1 hrest
    rcases path_loadComponent hload with ⟨entry, text, rfl, rfl⟩ | ⟨e, text, rfl, rfl⟩
    · exact .inr (.inr ⟨c, entry, text, hkeeps, rfl, rfl⟩)
    · exact .inr (.inl ⟨.failing hkeeps e text, rfl⟩)

theorem path_loadFromContainer {result : Except (Stop LoadError) Loaded}
    (h : (loadFromContainer stage).Path steps result) :
    (∃ entry text, steps = [⟨.loadStage stage.name, .ok entry⟩, logged .info text] ∧
      result = .ok ⟨entry, .container⟩) ∨
    ∃ e text, steps = [⟨.loadStage stage.name, .error e⟩, logged .warn text] ∧
      result = .error (.error (.notFound stage.name)) := by
  obtain ⟨e | entry, rest, rfl, hlog⟩ :=
    (Task.path_query_bind_iff (q := .loadStage stage.name)).1 h <;>
    obtain ⟨⟨⟩, last, rfl, hend⟩ := (Task.path_query_bind_iff (q := .log _ _)).1 hlog
  · obtain ⟨rfl, rfl⟩ := Task.path_fail_iff.1 hend
    exact .inr ⟨e, _, rfl, rfl⟩
  · obtain ⟨rfl, rfl⟩ := Task.path_pure_iff.1 hend
    exact .inl ⟨entry, _, rfl, rfl⟩

/-- **How a stage is loaded with verified boot.**  The container is asked only
after nothing verified was found, and only if the stage lets it. -/
theorem path_load_of_verifiedBoot {result : Except (Stop LoadError) Loaded}
    (hverified : config.verifiedBoot = true) (h : (load config registry stage).Path steps result) :
    (steps = [] ∧ result = .error (.halt .assertionFailed)) ∨
    (∃ c entry text, registry.Keeps stage.index c ∧
      steps = [⟨.loadStageAt c.address, .ok entry⟩, logged .info text] ∧
      result = .ok ⟨entry, .verified c.address c.size⟩) ∨
    ∃ attempt rest, Unverified registry stage attempt ∧ steps = attempt ++ rest ∧
      ((stage.fallback = .forbidden ∧ rest = [] ∧
          result = .error (.error (.verificationRequired stage.name))) ∨
        (stage.fallback = .container ∧ (loadFromContainer stage).Path rest result)) := by
  unfold load at h
  rw [if_pos hverified] at h
  rcases Task.path_bind_iff.1 h with ⟨first, rest, loaded?, rfl, hload, hrest⟩ | ⟨stop, hload, rfl⟩
  · rcases path_loadVerified hload with
      ⟨-, ⟨⟩⟩ | ⟨hnone, hloaded⟩ | ⟨c, entry, text, hkeeps, rfl, hloaded⟩
    · obtain rfl := Except.ok.inj hloaded
      refine .inr (.inr ⟨first, rest, hnone, rfl, ?_⟩)
      cases hfallback : stage.fallback with
      | container =>
        simp only [hfallback] at hrest
        exact .inr ⟨rfl, hrest⟩
      | forbidden =>
        simp only [hfallback] at hrest
        exact .inl ⟨rfl, Task.path_fail_iff.1 hrest⟩
    · obtain rfl := Except.ok.inj hloaded
      obtain ⟨rfl, rfl⟩ := Task.path_pure_iff.1 hrest
      exact .inr (.inl ⟨c, entry, text, hkeeps, rfl, rfl⟩)
  · rcases path_loadVerified hload with ⟨rfl, hstop⟩ | ⟨-, ⟨⟩⟩ | ⟨_, _, _, -, -, ⟨⟩⟩
    obtain rfl := Except.error.inj hstop
    exact .inl ⟨rfl, rfl⟩

theorem path_locateInContainer {result : Except (Stop LoadError) Region}
    (h : (locateInContainer stage).Path steps result) :
    ∃ intro answer rest, steps = logged .info intro :: ⟨.locateFile stage.name, answer⟩ :: rest ∧
      ((∃ region, answer = .ok region ∧ rest = [] ∧ result = .ok region) ∨
        ∃ e text, answer = .error e ∧ rest = [logged .warn text] ∧
          result = .error (.error (.notFound stage.name))) := by
  obtain ⟨⟨⟩, rest, rfl, hfile⟩ := (Task.path_query_bind_iff (q := .log _ _)).1 h
  obtain ⟨answer, last, rfl, hanswer⟩ :=
    (Task.path_query_bind_iff (q := .locateFile stage.name)).1 hfile
  refine ⟨_, answer, last, rfl, ?_⟩
  cases answer with
  | ok region =>
    obtain ⟨rfl, rfl⟩ := Task.path_pure_iff.1 hanswer
    exact .inl ⟨region, rfl, rfl, rfl⟩
  | error e =>
    obtain ⟨⟨⟩, none, rfl, hend⟩ := (Task.path_query_bind_iff (q := .log _ _)).1 hanswer
    obtain ⟨rfl, rfl⟩ := Task.path_fail_iff.1 hend
    exact .inr ⟨e, _, rfl, rfl, rfl⟩

/-- **How the bytes of an image are found with verified boot.** -/
theorem path_locate_of_verifiedBoot {result : Except (Stop LoadError) Region}
    (hverified : config.verifiedBoot = true)
    (h : (locate config registry stage).Path steps result) :
    (steps = [] ∧ result = .error (.halt .assertionFailed)) ∨
    (∃ c, registry.Keeps stage.index c ∧ steps = [] ∧ result = .ok ⟨c.address, c.size⟩) ∨
    (registry.Lacks stage.index ∧
      ((stage.fallback = .forbidden ∧ steps = [] ∧
          result = .error (.error (.verificationRequired stage.name))) ∨
        (stage.fallback = .container ∧ (locateInContainer stage).Path steps result))) := by
  unfold locate at h
  rw [if_pos hverified] at h
  rcases registry.verified_cases stage.index with
    ⟨-, hslot⟩ | ⟨hlacks, hslot⟩ | ⟨c, hkeeps, hslot⟩ <;>
    rcases Task.path_check_bind_iff.1 h with ⟨slot, hslot', hrest⟩ | ⟨halt, hslot', rfl, rfl⟩ <;>
    rw [hslot] at hslot' <;> cases hslot'
  · exact .inl ⟨rfl, rfl⟩
  · refine .inr (.inr ⟨hlacks, ?_⟩)
    cases hfallback : stage.fallback with
    | container =>
      simp only [hfallback] at hrest
      exact .inr ⟨rfl, hrest⟩
    | forbidden =>
      simp only [hfallback] at hrest
      exact .inl ⟨rfl, Task.path_fail_iff.1 hrest⟩
  · obtain ⟨rfl, rfl⟩ := Task.path_pure_iff.1 hrest
    exact .inr (.inl ⟨c, hkeeps, rfl, rfl⟩)

section Footprints

theorem asks_loadFromContainer (stage : StageSpec) : (loadFromContainer stage).Asks Fetches := by
  refine Task.asks_lift_bind (Firmware.asks_query trivial) fun answer => ?_
  cases answer with
  | ok entry =>
    exact Task.asks_lift_bind (Firmware.asks_query trivial) fun _ => Task.asks_pure _
  | error e =>
    exact Task.asks_lift_bind (Firmware.asks_query trivial) fun _ => Task.asks_fail _

theorem asks_loadComponent (stage : StageSpec) (c : Component) :
    (loadComponent stage c).Asks Fetches := by
  refine Firmware.asks_bind (Firmware.asks_query trivial) fun answer => ?_
  cases answer <;>
    exact Firmware.asks_bind (Firmware.asks_query trivial) fun _ => Firmware.asks_pure _

theorem asks_loadVerified (registry : Registry) (stage : StageSpec) :
    (loadVerified registry stage).Asks Fetches := by
  refine Task.asks_bind (Task.asks_check _) fun slot => ?_
  cases slot with
  | none => exact Task.asks_pure _
  | some c => exact Task.asks_lift (asks_loadComponent stage c)

theorem asks_load (config : BootConfig) (registry : Registry) (stage : StageSpec) :
    (load config registry stage).Asks Fetches := by
  unfold load
  split
  · refine Task.asks_bind (asks_loadVerified registry stage) fun loaded? => ?_
    split
    · exact Task.asks_pure _
    · split
      · exact Task.asks_fail _
      · exact asks_loadFromContainer stage
  · exact asks_loadFromContainer stage

theorem asks_locateInContainer (stage : StageSpec) : (locateInContainer stage).Asks Fetches := by
  refine Task.asks_lift_bind (Firmware.asks_query trivial) fun _ =>
    Task.asks_lift_bind (Firmware.asks_query trivial) fun answer => ?_
  cases answer with
  | ok region => exact Task.asks_pure _
  | error e =>
    exact Task.asks_lift_bind (Firmware.asks_query trivial) fun _ => Task.asks_fail _

theorem asks_locate (config : BootConfig) (registry : Registry) (stage : StageSpec) :
    (locate config registry stage).Asks Fetches := by
  unfold locate
  split
  · refine Task.asks_bind (Task.asks_check _) fun slot => ?_
    split
    · exact Task.asks_pure _
    · split
      · exact Task.asks_fail _
      · exact asks_locateInContainer stage
  · exact asks_locateInContainer stage

end Footprints

/-- The container may be asked by name for the image of a stage: the stage has
that fallback, and there is nothing verified to use instead.  An image that is
loaded rather than found may also be one that the registry keeps and that has
failed to load. -/
def Justified (registry : Registry) (stage : StageSpec) (mode : SecureOsLoad)
    (earlier : List Step) (q : Query) : Prop :=
  stage.fallback = .container ∧
    match mode with
    | .stage =>
      q = .loadStage stage.name ∧
        (registry.Lacks stage.index ∨
          ∃ c e, registry.Keeps stage.index c ∧ ⟨.loadStageAt c.address, .error e⟩ ∈ earlier)
    | .raw => q = .locateFile stage.name ∧ registry.Lacks stage.index

theorem justified_of_path_load {result : Except (Stop LoadError) Loaded}
    (hverified : config.verifiedBoot = true) (h : (load config registry stage).Path steps result) :
    Throughout (fun earlier step => step.query.NamesImage →
      Justified registry stage .stage earlier step.query) steps := by
  rcases path_load_of_verifiedBoot hverified h with
    ⟨rfl, -⟩ | ⟨c, entry, text, -, rfl, -⟩ |
    ⟨attempt, rest, hnone, rfl, ⟨-, rfl, -⟩ | ⟨hcontainer, hrest⟩⟩
  · exact throughout_nil
  · exact throughout_cons nofun (throughout_cons nofun throughout_nil)
  · rw [List.append_nil]
    exact throughout_of_not hnone.not_namesImage
  · have hjustified : ∀ answer text level, Throughout (fun earlier step => step.query.NamesImage →
        Justified registry stage .stage (attempt ++ earlier) step.query)
        [⟨.loadStage stage.name, answer⟩, logged level text] := by
      refine fun answer text level => throughout_cons (fun _ => ⟨hcontainer, rfl, ?_⟩)
        (throughout_cons nofun throughout_nil)
      cases hnone with
      | lacking hlacks => exact .inl hlacks
      | failing hkeeps e text =>
        exact .inr ⟨_, e, hkeeps, List.mem_append_left _ List.mem_cons_self⟩
    refine throughout_append (throughout_of_not hnone.not_namesImage) ?_
    rcases path_loadFromContainer hrest with ⟨entry, text, rfl, -⟩ | ⟨e, text, rfl, -⟩ <;>
      exact hjustified _ _ _

theorem justified_of_path_locate {result : Except (Stop LoadError) Region}
    (hverified : config.verifiedBoot = true)
    (h : (locate config registry stage).Path steps result) :
    Throughout (fun earlier step => step.query.NamesImage →
      Justified registry stage .raw earlier step.query) steps := by
  rcases path_locate_of_verifiedBoot hverified h with
    ⟨rfl, -⟩ | ⟨c, -, rfl, -⟩ | ⟨hlacks, ⟨-, rfl, -⟩ | ⟨hcontainer, hrest⟩⟩
  · exact throughout_nil
  · exact throughout_nil
  · exact throughout_nil
  · obtain ⟨intro, answer, rest, rfl, hrest'⟩ := path_locateInContainer hrest
    refine throughout_cons nofun (throughout_cons (fun _ => ⟨hcontainer, rfl, hlacks⟩) ?_)
    rcases hrest' with ⟨region, -, rfl, -⟩ | ⟨e, text, -, rfl, -⟩
    · exact throughout_nil
    · exact throughout_cons nofun throughout_nil

/-- A stage without a fallback is entered where its verified image was
loaded. -/
theorem path_load_of_forbidden {loaded : Loaded} (hverified : config.verifiedBoot = true)
    (hforbidden : stage.fallback = .forbidden)
    (h : (load config registry stage).Path steps (.ok loaded)) :
    ∃ c text, registry.Keeps stage.index c ∧
      steps = [⟨.loadStageAt c.address, .ok loaded.entry⟩, logged .info text] := by
  rcases path_load_of_verifiedBoot hverified h with
    ⟨-, ⟨⟩⟩ | ⟨c, entry, text, hkeeps, rfl, hloaded⟩ | ⟨_, _, -, -, ⟨-, -, ⟨⟩⟩ | ⟨hcontainer, -⟩⟩
  · obtain rfl := Except.ok.inj hloaded
    exact ⟨c, text, hkeeps, rfl⟩
  · rw [hforbidden] at hcontainer
    cases hcontainer

/-- The bytes of a stage without a fallback are those in its slot. -/
theorem path_locate_of_forbidden {region : Region} (hverified : config.verifiedBoot = true)
    (hforbidden : stage.fallback = .forbidden)
    (h : (locate config registry stage).Path steps (.ok region)) :
    ∃ c, registry.Keeps stage.index c ∧ region = ⟨c.address, c.size⟩ := by
  rcases path_locate_of_verifiedBoot hverified h with
    ⟨-, ⟨⟩⟩ | ⟨c, hkeeps, -, hregion⟩ | ⟨-, ⟨-, -, ⟨⟩⟩ | ⟨hcontainer, -⟩⟩
  · exact ⟨c, hkeeps, Except.ok.inj hregion⟩
  · rw [hforbidden] at hcontainer
    cases hcontainer

end Image
end BootHandoff
